import Arbor.Proofs.Evolution.Pieces
import Arbor.Proofs.Rule.Formula

/-!
# Evolution is local

Cut a word into a block, what stands before it and what stands after it, and follow the three parts
from generation to generation. What becomes of the block in one generation depends on the block and
on as many symbols around it as the longest patterns have; in `n` generations, on `n` times as many,
provided that no symbol is erased, since erased symbols would let others move up. Whatever stands
further away cannot be told from the block that descends.

* `evolve_eq_descendants`: following the parts is evolving the word.
* `offspring_rename`: one generation of a block.
* `descend_alike`: where parts look alike, the next parts look alike, one reach less far.
* `evolve_local`: any number of generations.
-/

namespace Arbor

/-! ## Descendants -/

/-- A word in three parts. -/
structure Parts where
  before : Word
  block : Word
  after : Word

def Parts.word (p : Parts) : Word := p.before ++ (p.block ++ p.after)

namespace Grammar

variable {g : Grammar} {σ : Renaming}

/-- What becomes, side by side, of `count` symbols of a word from a place on. -/
def offspring (g : Grammar) (w : Word) (first count : Nat) : Traced Word :=
  Traced.join (List.range' first count) (g.successor w)

/-- The parts of the next generation, each of which descends from one of the parts. -/
def descend (g : Grammar) (p : Parts) : Traced Parts :=
  (g.offspring p.word 0 p.before.length).bind fun before =>
    (g.offspring p.word p.before.length p.block.length).bind fun block =>
      (g.offspring p.word (p.before.length + p.block.length) p.after.length).bind fun after =>
        .ofResult (.ok ⟨before, block, after⟩)

def descendants (g : Grammar) (p : Parts) : Nat → Traced Parts
  | 0 => .ofResult (.ok p)
  | n + 1 => (g.descend p).bind fun next => g.descendants next n

theorem offspring_add (g : Grammar) (w : Word) (first m n : Nat) :
    g.offspring w first (m + n) =
      (g.offspring w first m).bind fun xs => (g.offspring w (first + m) n).bind fun ys =>
        .ofResult (.ok (xs ++ ys)) := by
  unfold offspring
  rw [← List.range'_append_1, Traced.join_append]

/-- A generation is what becomes of all symbols. -/
theorem generation_eq_offspring (g : Grammar) (w : Word) :
    g.generation w = g.offspring w 0 w.length := by
  rw [generation_eq, generationByLists_eq, offspring, List.range_eq_range']

theorem generation_eq_descend (g : Grammar) (p : Parts) :
    g.generation p.word = (g.descend p).bind fun next => .ofResult (.ok next.word) := by
  have hlength : p.word.length = p.before.length + (p.block.length + p.after.length) := by
    simp only [Parts.word, List.length_append]
  rw [generation_eq_offspring, hlength, offspring_add, offspring_add]
  simp only [descend, Traced.bind_assoc, Traced.ofResult_bind, Parts.word, Nat.zero_add]

/-- **Following the parts is evolving the word.** -/
theorem evolve_eq_descendants (g : Grammar) (p : Parts) (n : Nat) :
    g.evolve p.word n = (g.descendants p n).bind fun last => .ofResult (.ok last.word) := by
  induction n generalizing p with
  | zero => rfl
  | succ n ih =>
    simp only [evolve_succ, generation_eq_descend, Traced.bind_assoc, descendants,
      Traced.ofResult_bind, ih]

/-! ## One generation -/

theorem successor_between (g : Grammar) (a b : Word) (s : Symbol) :
    g.successor (a ++ s :: b) a.length =
      g.applyBetween ⟨Word.nextGeneration (a ++ s :: b), a.length⟩ s a b := by
  rw [successor_eq g (by simp)]
  simp

/-- **One generation of a block depends on the block and what the patterns reach.** The sites of the
generation are renamed along with the others. -/
theorem offspring_rename (hg : g.Equivariant) (hσ : σ.Injective) {w w' a a' t b b' v v' : Word}
    (hw : w = a ++ (t ++ b)) (hw' : w' = a' ++ (Word.rename σ t ++ b'))
    (ha : a'.rtake g.leftReach = Word.rename σ (a.rtake g.leftReach))
    (hb : b'.take g.rightReach = Word.rename σ (b.take g.rightReach))
    (hsite : ∀ j, σ.site ⟨Word.nextGeneration w, a.length + j⟩ =
      ⟨Word.nextGeneration w', a'.length + j⟩)
    (h : (g.offspring w a.length t.length).result = .ok v)
    (h' : (g.offspring w' a'.length t.length).result = .ok v') : v' = Word.rename σ v := by
  induction t generalizing a a' v v' with
  | nil =>
    cases h
    cases h'
    rfl
  | cons s t ih =>
    unfold offspring at h h'
    rw [List.length_cons, List.range'_succ, Traced.join_cons, Traced.bind_ok_iff] at h h'
    obtain ⟨piece, hpiece, h⟩ := h
    obtain ⟨piece', hpiece', h'⟩ := h'
    obtain ⟨rest, hrest, h⟩ := (Traced.bind_ok_iff _ _ _).1 h
    obtain ⟨rest', hrest', h'⟩ := (Traced.bind_ok_iff _ _ _).1 h'
    cases h
    cases h'
    have hpiece : (g.applyBetween ⟨Word.nextGeneration w, a.length⟩ s a (t ++ b)).result =
        .ok piece := by
      rw [hw] at hpiece ⊢
      rwa [List.cons_append, successor_between] at hpiece
    have hpiece' : (g.applyBetween (σ.site ⟨Word.nextGeneration w, a.length⟩) (s.rename σ) a'
        (Word.rename σ t ++ b')).result = .ok piece' := by
      have hfirst := hsite 0
      rw [Nat.add_zero, Nat.add_zero] at hfirst
      rw [hfirst, hw']
      rw [hw'] at hpiece'
      exact (successor_between ..) ▸ hpiece'
    have hsecond : rest' = Word.rename σ rest := by
      have hs : Word.rename σ [s] = [s.rename σ] := rfl
      have hw : w = (a ++ [s]) ++ (t ++ b) := by simp [hw]
      have hw' : w' = (a' ++ [s.rename σ]) ++ (Word.rename σ t ++ b') := by simp [hw', Word.rename]
      have hbefore := Word.rtake_alike_append
        (Word.rtake_alike_of_le (Nat.sub_le _ [s].length) ha) hs.symm
      refine ih hw hw' hbefore ?_ ?_ ?_
      · intro j
        have hnext := hsite (1 + j)
        simpa [Nat.add_assoc] using hnext
      · simpa [offspring] using hrest
      · simpa [offspring] using hrest'
    have hafter := Word.take_alike_append (Word.take_alike_of_le (Nat.sub_le _ t.length) hb) rfl
    rw [Word.rename_append, hsecond, applyBetween_rename hg hσ ha hafter hpiece hpiece']

/-- No rule erases a symbol: no product is the empty word. -/
def Nonerasing (g : Grammar) : Prop := ∀ r ∈ g.rules, ∀ w, r.Produces w → w ≠ []

/-- Without erasing, something becomes of every symbol. -/
theorem Nonerasing.le_length (hg : g.Nonerasing) {w v : Word} {first count : Nat}
    (hcount : first + count ≤ w.length) (h : (g.offspring w first count).result = .ok v) :
    count ≤ v.length := by
  induction count generalizing first v with
  | zero => exact Nat.zero_le _
  | succ count ih =>
    rw [offspring, List.range'_succ, Traced.join_cons, Traced.bind_ok_iff] at h
    obtain ⟨piece, hpiece, h⟩ := h
    obtain ⟨rest, hrest, h⟩ := (Traced.bind_ok_iff _ _ _).1 h
    cases h
    have hne : piece ≠ [] := by
      rw [successor_eq g (by omega)] at hpiece
      rcases yields_of_applyBetween hpiece with rfl | ⟨r, hr, -, hproduces⟩
      · exact List.cons_ne_nil _ _
      · exact hg r hr piece hproduces
    have hpos := List.length_pos_of_ne_nil hne
    have hlater := ih (by omega) hrest
    rw [List.length_append]
    omega

end Grammar

/-! ## Looking alike -/

namespace Parts

variable {σ : Renaming} {p p' : Parts} {left right : Nat}

/-- Seen from the block, up to some symbols before it and some after it, two words are the same,
with the origins renamed. A part that is shorter than that has to be the same as a whole. -/
structure Alike (σ : Renaming) (left right : Nat) (p p' : Parts) : Prop where
  before : p'.before.rtake left = Word.rename σ (p.before.rtake left)
  block : p'.block = Word.rename σ p.block
  after : p'.after.take right = Word.rename σ (p.after.take right)

/-- What is seen from the block. -/
def view (p : Parts) (left right : Nat) : Word :=
  p.before.rtake left ++ (p.block ++ p.after.take right)

theorem view_subset (p : Parts) (left right : Nat) : p.view left right ⊆ p.word := by
  refine List.append_subset.2 ⟨?_, List.append_subset.2 ⟨?_, ?_⟩⟩
  · exact fun s hs => List.mem_append_left _ (List.mem_of_mem_drop hs)
  · exact fun s hs => List.mem_append_right _ (List.mem_append_left _ hs)
  · exact fun s hs =>
      List.mem_append_right _ (List.mem_append_right _ (List.mem_of_mem_take hs))

theorem Alike.view_eq (h : Alike σ left right p p') :
    p'.view left right = Word.rename σ (p.view left right) := by
  rw [view, view, h.before, h.block, h.after, Word.rename_append, Word.rename_append]

/-- Words that look alike still do when the sites of their next generations are renamed too. -/
theorem Alike.exists_advance (hσ : σ.Injective) (h : Alike σ left right p p') (first first' : Nat) :
    ∃ τ : Renaming, τ.Injective ∧ Alike τ left right p p' ∧
      ∀ j, τ.site ⟨Word.nextGeneration p.word, first + j⟩ =
        ⟨Word.nextGeneration p'.word, first' + j⟩ := by
  let shown := Word.sites (p.view left right)
  let τ := σ.advance shown ⟨Word.nextGeneration p.word, first⟩
    ⟨Word.nextGeneration p'.word, first'⟩
  have hold : ∀ site ∈ shown, site.generation < Word.nextGeneration p.word := fun site hsite =>
    Word.generation_lt (Word.sites_subset (p.view_subset _ _) hsite)
  have hold' : ∀ site ∈ shown, (σ.site site).generation < Word.nextGeneration p'.word := by
    intro site hsite
    refine Word.generation_lt (Word.sites_subset (p'.view_subset left right) ?_)
    rw [h.view_eq, Word.sites_rename]
    exact List.mem_map_of_mem hsite
  have hseed : σ.seed = τ.seed := rfl
  have hsame : ∀ w, w ⊆ p.view left right → Word.rename σ w = Word.rename τ w := fun w hw =>
    Word.rename_congr hseed fun site hsite =>
      (Renaming.advance_shown (Word.sites_subset hw hsite)).symm
  refine ⟨τ, hσ.advance hold', ⟨?_, ?_, ?_⟩, Renaming.advance_new hold⟩
  · rw [h.before, hsame _ (List.subset_append_left _ _)]
  · rw [h.block, hsame _ fun s hs => List.mem_append_right _ (List.mem_append_left _ hs)]
  · rw [h.after, hsame _ fun s hs => List.mem_append_right _ (List.mem_append_right _ hs)]

end Parts

namespace Grammar

variable {g : Grammar} {σ : Renaming}

theorem descend_eq_ok_iff {p q : Parts} : (g.descend p).result = .ok q ↔
    (g.offspring p.word 0 p.before.length).result = .ok q.before ∧
      (g.offspring p.word p.before.length p.block.length).result = .ok q.block ∧
      (g.offspring p.word (p.before.length + p.block.length) p.after.length).result =
        .ok q.after := by
  obtain ⟨before, block, after⟩ := q
  simp only [descend, Traced.bind_ok_iff, Traced.ofResult, Except.ok.injEq, Parts.mk.injEq]
  constructor
  · rintro ⟨_, hbefore, _, hblock, _, hafter, rfl, rfl, rfl⟩
    exact ⟨hbefore, hblock, hafter⟩
  · rintro ⟨hbefore, hblock, hafter⟩
    exact ⟨_, hbefore, _, hblock, _, hafter, rfl, rfl, rfl⟩

theorem offspring_add_eq_ok {w v : Word} {first m n : Nat}
    (h : (g.offspring w first (m + n)).result = .ok v) :
    ∃ xs ys, (g.offspring w first m).result = .ok xs ∧
      (g.offspring w (first + m) n).result = .ok ys ∧ v = xs ++ ys := by
  rw [offspring_add, Traced.bind_ok_iff] at h
  obtain ⟨xs, hxs, h⟩ := h
  obtain ⟨ys, hys, h⟩ := (Traced.bind_ok_iff _ _ _).1 h
  cases h
  exact ⟨xs, ys, hxs, hys, rfl⟩

section Alike

variable {n : Nat} {p p' q q' : Parts}

/-- Symbols that are seen have as many descendants, unless none has to be seen any more. -/
theorem le_length_offspring {k : Nat} (hk : k = 0 ∨ g.Nonerasing) {w v : Word} {first count : Nat}
    (hcount : first + count ≤ w.length) (hle : k ≤ count)
    (h : (g.offspring w first count).result = .ok v) : k ≤ v.length := by
  rcases hk with rfl | hg
  · exact Nat.zero_le _
  · exact Nat.le_trans hle (hg.le_length hcount h)

theorem length_rdrop_add (w : Word) (k : Nat) :
    w.length = (w.rdrop k).length + (w.rtake k).length := by
  rw [← List.length_append, rdrop_append_rtake]

/-- What descends from before the block. Of the symbols before it those that are seen one generation
later are cut off, and become the same; the others are too far away, or there are none. -/
theorem before_alike (hg : g.Equivariant) (hσ : σ.Injective) (hn : n = 0 ∨ g.Nonerasing)
    (halike : p.Alike σ ((n + 1) * g.leftReach) ((n + 1) * g.rightReach) p')
    (hsite : ∀ j, σ.site ⟨Word.nextGeneration p.word,
        (p.before.rdrop (n * g.leftReach)).length + j⟩ =
      ⟨Word.nextGeneration p'.word, (p'.before.rdrop (n * g.leftReach)).length + j⟩)
    {v v' : Word} (h : (g.offspring p.word 0 p.before.length).result = .ok v)
    (h' : (g.offspring p'.word 0 p'.before.length).result = .ok v') :
    v'.rtake (n * g.leftReach) = Word.rename σ (v.rtake (n * g.leftReach)) := by
  have hreach : (n + 1) * g.leftReach = g.leftReach + n * g.leftReach := by
    rw [Nat.succ_mul, Nat.add_comm]
  have hle : n * g.leftReach ≤ (n + 1) * g.leftReach := Nat.mul_le_mul_right _ (Nat.le_succ n)
  have hle' : g.rightReach ≤ (n + 1) * g.rightReach := Nat.le_mul_of_pos_left _ (Nat.succ_pos n)
  have hkeeps : n * g.leftReach = 0 ∨ g.Nonerasing := hn.imp_left fun h => by rw [h, Nat.zero_mul]
  generalize n * g.leftReach = k at hreach hle hkeeps hsite ⊢
  have hnear : p'.before.rtake k = Word.rename σ (p.before.rtake k) :=
    Word.rtake_alike_of_le hle halike.before
  have hfar : (p'.before.rdrop k).rtake g.leftReach =
      Word.rename σ ((p.before.rdrop k).rtake g.leftReach) := by
    rw [rtake_rdrop, rtake_rdrop, ← hreach, halike.before, Word.rename_rdrop]
  rw [length_rdrop_add p.before k] at h
  rw [length_rdrop_add p'.before k] at h'
  obtain ⟨xs, ys, hxs, hys, rfl⟩ := offspring_add_eq_ok h
  obtain ⟨xs', ys', hxs', hys', rfl⟩ := offspring_add_eq_ok h'
  rw [Nat.zero_add] at hys
  rw [Nat.zero_add, hnear, Word.length_rename] at hys'
  have hw : p.word = p.before.rdrop k ++ (p.before.rtake k ++ (p.block ++ p.after)) := by
    rw [← List.append_assoc, rdrop_append_rtake, Parts.word]
  have hw' : p'.word =
      p'.before.rdrop k ++ (Word.rename σ (p.before.rtake k) ++ (p'.block ++ p'.after)) := by
    rw [← hnear, ← List.append_assoc, rdrop_append_rtake, Parts.word]
  have hright : (p'.block ++ p'.after).take g.rightReach =
      Word.rename σ ((p.block ++ p.after).take g.rightReach) :=
    Word.take_alike_append
      (Word.take_alike_of_le (Nat.le_trans (Nat.sub_le _ _) hle') halike.after) halike.block
  have hmade : ys' = Word.rename σ ys := offspring_rename hg hσ hw hw' hfar hright hsite hys hys'
  refine Word.rtake_alike_append ?_ hmade
  by_cases hshort : (p.before.rtake k).length < k
  · have hnone : p.before.rdrop k = [] := rdrop_eq_nil hshort
    have hnone' : p'.before.rdrop k = [] :=
      rdrop_eq_nil (by rwa [hnear, Word.length_rename])
    rw [hnone] at hxs
    rw [hnone'] at hxs'
    obtain rfl : [] = xs := Except.ok.inj hxs
    obtain rfl : [] = xs' := Except.ok.inj hxs'
    rw [List.rtake_nil, Word.rename_nil]
  · have henough : k ≤ ys.length := by
      refine le_length_offspring hkeeps ?_ (Nat.not_lt.1 hshort) hys
      rw [hw]
      simp only [List.length_append]
      omega
    rw [Nat.sub_eq_zero_of_le henough, List.rtake_zero, List.rtake_zero, Word.rename_nil]

/-- What descends from after the block. -/
theorem after_alike (hg : g.Equivariant) (hσ : σ.Injective) (hn : n = 0 ∨ g.Nonerasing)
    (halike : p.Alike σ ((n + 1) * g.leftReach) ((n + 1) * g.rightReach) p')
    (hsite : ∀ j, σ.site ⟨Word.nextGeneration p.word, p.before.length + p.block.length + j⟩ =
      ⟨Word.nextGeneration p'.word, p'.before.length + p'.block.length + j⟩)
    {v v' : Word}
    (h : (g.offspring p.word (p.before.length + p.block.length) p.after.length).result = .ok v)
    (h' : (g.offspring p'.word (p'.before.length + p'.block.length) p'.after.length).result =
      .ok v') : v'.take (n * g.rightReach) = Word.rename σ (v.take (n * g.rightReach)) := by
  have hreach : (n + 1) * g.rightReach = n * g.rightReach + g.rightReach := Nat.succ_mul _ _
  have hle : n * g.rightReach ≤ (n + 1) * g.rightReach := Nat.mul_le_mul_right _ (Nat.le_succ n)
  have hle' : g.leftReach ≤ (n + 1) * g.leftReach := Nat.le_mul_of_pos_left _ (Nat.succ_pos n)
  have hkeeps : n * g.rightReach = 0 ∨ g.Nonerasing := hn.imp_left fun h => by rw [h, Nat.zero_mul]
  generalize n * g.rightReach = k at hreach hle hkeeps ⊢
  have hnear : p'.after.take k = Word.rename σ (p.after.take k) :=
    Word.take_alike_of_le hle halike.after
  have hfar : (p'.after.drop k).take g.rightReach =
      Word.rename σ ((p.after.drop k).take g.rightReach) := by
    rw [List.take_drop, List.take_drop, ← hreach, halike.after, Word.rename_drop]
  have hlength : ∀ w : Word, w.length = (w.take k).length + (w.drop k).length := fun w => by
    rw [← List.length_append, List.take_append_drop]
  rw [hlength p.after] at h
  rw [hlength p'.after] at h'
  obtain ⟨xs, ys, hxs, hys, rfl⟩ := offspring_add_eq_ok h
  obtain ⟨xs', ys', hxs', hys', rfl⟩ := offspring_add_eq_ok h'
  rw [← List.length_append] at hxs hys hxs' hys'
  rw [hnear, Word.length_rename] at hxs'
  have hw : p.word = (p.before ++ p.block) ++ (p.after.take k ++ p.after.drop k) := by
    rw [List.take_append_drop, List.append_assoc, Parts.word]
  have hw' : p'.word =
      (p'.before ++ p'.block) ++ (Word.rename σ (p.after.take k) ++ p'.after.drop k) := by
    rw [← hnear, List.take_append_drop, List.append_assoc, Parts.word]
  have hleft : (p'.before ++ p'.block).rtake g.leftReach =
      Word.rename σ ((p.before ++ p.block).rtake g.leftReach) :=
    Word.rtake_alike_append
      (Word.rtake_alike_of_le (Nat.le_trans (Nat.sub_le _ _) hle') halike.before) halike.block
  simp only [← List.length_append] at hsite
  have hmade : xs' = Word.rename σ xs := offspring_rename hg hσ hw hw' hleft hfar hsite hxs hxs'
  refine Word.take_alike_append ?_ hmade
  by_cases hshort : (p.after.take k).length < k
  · have hnone : ∀ w : Word, (w.take k).length < k → w.drop k = [] := fun w hw =>
      List.drop_eq_nil_of_le (by rw [List.length_take] at hw; omega)
    rw [hnone _ hshort] at hys
    rw [hnone p'.after (by rwa [hnear, Word.length_rename])] at hys'
    obtain rfl : [] = ys := Except.ok.inj hys
    obtain rfl : [] = ys' := Except.ok.inj hys'
    rw [List.take_nil, Word.rename_nil]
  · have henough : k ≤ xs.length := by
      refine le_length_offspring hkeeps ?_ (Nat.not_lt.1 hshort) hxs
      rw [hw]
      simp only [List.length_append]
      omega
    rw [Nat.sub_eq_zero_of_le henough, List.take_zero, List.take_zero, Word.rename_nil]

end Alike

/-- **Where parts look alike, the next parts look alike**, one reach less far. Symbols that are not
erased have at least one symbol in the next generation, so the parts that are seen keep others from
moving up. -/
theorem descend_alike (hg : g.Equivariant) (hσ : σ.Injective) {n : Nat}
    (hn : n = 0 ∨ g.Nonerasing) {p p' q q' : Parts}
    (halike : p.Alike σ ((n + 1) * g.leftReach) ((n + 1) * g.rightReach) p')
    (h : (g.descend p).result = .ok q) (h' : (g.descend p').result = .ok q') :
    ∃ τ : Renaming, τ.Injective ∧ q.Alike τ (n * g.leftReach) (n * g.rightReach) q' := by
  have hle : n * g.leftReach ≤ (n + 1) * g.leftReach := Nat.mul_le_mul_right _ (Nat.le_succ n)
  have hnear : (p'.before.rtake (n * g.leftReach)).length =
      (p.before.rtake (n * g.leftReach)).length := by
    rw [Word.rtake_alike_of_le hle halike.before, Word.length_rename]
  have hblock : p'.block.length = p.block.length := by rw [halike.block, Word.length_rename]
  obtain ⟨τ, hτ, halike, hsite⟩ := halike.exists_advance hσ
    (p.before.rdrop (n * g.leftReach)).length (p'.before.rdrop (n * g.leftReach)).length
  have hplace : ∀ j, τ.site ⟨Word.nextGeneration p.word, p.before.length + j⟩ =
      ⟨Word.nextGeneration p'.word, p'.before.length + j⟩ := by
    intro j
    have hlater := hsite ((p.before.rtake (n * g.leftReach)).length + j)
    rwa [← Nat.add_assoc, ← Nat.add_assoc, ← length_rdrop_add, ← hnear, ← length_rdrop_add]
      at hlater
  obtain ⟨hbefore, hmiddle, hafter⟩ := descend_eq_ok_iff.1 h
  obtain ⟨hbefore', hmiddle', hafter'⟩ := descend_eq_ok_iff.1 h'
  refine ⟨τ, hτ, before_alike hg hτ hn halike hsite hbefore hbefore', ?_,
    after_alike hg hτ hn halike ?_ hafter hafter'⟩
  · rw [hblock] at hmiddle'
    have hword' : p'.word = p'.before ++ (Word.rename τ p.block ++ p'.after) := by
      rw [← halike.block, Parts.word]
    refine offspring_rename hg hτ rfl hword' ?_ ?_ hplace hmiddle hmiddle'
    · exact Word.rtake_alike_of_le (Nat.le_mul_of_pos_left _ (Nat.succ_pos n)) halike.before
    · exact Word.take_alike_of_le (Nat.le_mul_of_pos_left _ (Nat.succ_pos n)) halike.after
  · intro j
    rw [hblock, Nat.add_assoc, Nat.add_assoc]
    exact hplace _

/-! ## Any number of generations -/

theorem descendants_alike (hg : g.Equivariant) (hσ : σ.Injective) {n : Nat}
    (hn : 1 < n → g.Nonerasing) {p p' q q' : Parts}
    (halike : p.Alike σ (n * g.leftReach) (n * g.rightReach) p')
    (h : (g.descendants p n).result = .ok q) (h' : (g.descendants p' n).result = .ok q') :
    ∃ τ : Renaming, τ.Injective ∧ q'.block = Word.rename τ q.block := by
  induction n generalizing p p' σ with
  | zero =>
    cases h
    cases h'
    exact ⟨σ, hσ, halike.block⟩
  | succ n ih =>
    obtain ⟨next, hnext, h⟩ := (Traced.bind_ok_iff _ _ _).1 h
    obtain ⟨next', hnext', h'⟩ := (Traced.bind_ok_iff _ _ _).1 h'
    have hkeeps : n = 0 ∨ g.Nonerasing := n.eq_zero_or_pos.imp_right fun hpos =>
      hn (Nat.succ_lt_succ hpos)
    obtain ⟨τ, hτ, hlike⟩ := descend_alike hg hσ hkeeps halike hnext hnext'
    exact ih hτ (fun hlt => hn (Nat.lt_succ_of_lt hlt)) hlike h h'

/-- **Evolution is local.** Around a block, let two words have the same symbols as far as the
longest patterns reach in each of `n` generations, or as far as the words go if they end before,
and, if there is more than one generation, let nothing be erased. Then the same descends from the
block.

The same means up to a renaming of origins. Numbers have none, so among words of numbers it means
that the words are equal, and of values that are not a number it is kept which of them are one and
the same. -/
theorem evolve_local (g : Grammar) (hg : g.Equivariant) (n : Nat) (hn : 1 < n → g.Nonerasing)
    (x x' u u' y y' v v' : Word) (σ : Renaming) (hσ : σ.Injective)
    (hx : x'.rtake (n * g.leftReach) = Word.rename σ (x.rtake (n * g.leftReach)))
    (hu : u' = Word.rename σ u)
    (hy : y'.take (n * g.rightReach) = Word.rename σ (y.take (n * g.rightReach)))
    (h : (g.evolve (x ++ (u ++ y)) n).result = .ok v)
    (h' : (g.evolve (x' ++ (u' ++ y')) n).result = .ok v') :
    ∃ p p' : Parts, (g.descendants ⟨x, u, y⟩ n).result = .ok p ∧ p.word = v ∧
      (g.descendants ⟨x', u', y'⟩ n).result = .ok p' ∧ p'.word = v' ∧
      (∃ τ : Renaming, τ.Injective ∧ p'.block = Word.rename τ p.block) ∧
      ((∀ s ∈ p.block, ∀ value ∈ s.params, ∃ x, value = .number x) → p'.block = p.block) := by
  have hparts : ∀ {q : Parts} {w : Word}, (g.evolve q.word n).result = .ok w →
      ∃ p, (g.descendants q n).result = .ok p ∧ p.word = w := by
    intro q w hw
    rw [evolve_eq_descendants, Traced.bind_ok_iff] at hw
    obtain ⟨p, hp, hw⟩ := hw
    exact ⟨p, hp, Except.ok.inj hw⟩
  obtain ⟨p, hp, hv⟩ := hparts (q := ⟨x, u, y⟩) h
  obtain ⟨p', hp', hv'⟩ := hparts (q := ⟨x', u', y'⟩) h'
  obtain ⟨τ, hτ, hblock⟩ := descendants_alike hg hσ hn ⟨hx, hu, hy⟩ hp hp'
  refine ⟨p, p', hp, hv, hp', hv', ⟨τ, hτ, hblock⟩, fun hnumbers => ?_⟩
  rw [hblock, Word.rename_of_numbers hnumbers]

/-- Between a smaller `B` and a `C` an apex grows by what the `B` holds, and makes another `C`. Two
generations of `A(2)` look two symbols far: the `D` before and the `A(9)` behind are out of
sight. -/
theorem evolve_local_apex :
    let guard : Formula := .comparison .less (.named "x") (.named "y")
    let product : Template :=
      ⟨[("A", [.arithmetic .add (.named "x") (.attribute "y")]), ("C", [])], none⟩
    let g : Grammar := ⟨⟨[]⟩, [⟨[⟨"B", [.named "x"]⟩], ⟨"A", [.named "y"]⟩, [⟨"C", []⟩],
      some guard.holds, .function product.build⟩]⟩
    let a (n : Int) : Symbol := ⟨"A", [.number (.int n)]⟩
    let b : Symbol := ⟨"B", [.number (.int 1)]⟩
    let c : Symbol := ⟨"C", []⟩
    g.Equivariant ∧ g.Nonerasing ∧ g.leftReach = 1 ∧ g.rightReach = 1 ∧
    (g.evolve ([⟨"D", []⟩, b, b] ++ ([a 2] ++ [c, c, a 9])) 2).result =
      .ok [⟨"D", []⟩, b, b, a 4, c, c, c, c, a 9] ∧
    (g.evolve ([b, b] ++ ([a 2] ++ [c, c])) 2).result = .ok [b, b, a 4, c, c, c, c] ∧
    ∃ p p' : Parts, (g.descendants ⟨[⟨"D", []⟩, b, b], [a 2], [c, c, a 9]⟩ 2).result = .ok p ∧
      p.word = [⟨"D", []⟩, b, b, a 4, c, c, c, c, a 9] ∧
      (g.descendants ⟨[b, b], [a 2], [c, c]⟩ 2).result = .ok p' ∧
      p'.word = [b, b, a 4, c, c, c, c] ∧
      (∃ τ : Renaming, τ.Injective ∧ p'.block = Word.rename τ p.block) ∧
      ((∀ s ∈ p.block, ∀ value ∈ s.params, ∃ x, value = .number x) → p'.block = p.block) := by
  intro guard product g a b c
  have hg : g.Equivariant := by
    refine List.forall_mem_singleton.2 ⟨fun f hf => ?_, product.equivariant_build⟩
    obtain rfl := Option.some.inj hf
    exact guard.equivariant_holds
  have hn : g.Nonerasing := by
    refine List.forall_mem_singleton.2 fun w hw => ?_
    cases hw with
    | word h => cases h
    | function h h' =>
      cases h
      exact List.ne_nil_of_length_pos (by rw [Template.length_build h']; decide)
  have h : (g.evolve ([⟨"D", []⟩, b, b] ++ ([a 2] ++ [c, c, a 9])) 2).result =
      .ok [⟨"D", []⟩, b, b, a 4, c, c, c, c, a 9] := rfl
  have h' : (g.evolve ([b, b] ++ ([a 2] ++ [c, c])) 2).result = .ok [b, b, a 4, c, c, c, c] := rfl
  exact ⟨hg, hn, rfl, rfl, h, h', evolve_local g hg 2 (fun _ => hn) _ _ _ _ _ _ _ _ .identity
    Renaming.injective_identity (Word.rename_identity _).symm (Word.rename_identity _).symm
    (Word.rename_identity _).symm h h'⟩

end Grammar

end Arbor
