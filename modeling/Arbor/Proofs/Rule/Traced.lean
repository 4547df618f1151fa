import Arbor.Rule.Traced
import Mathlib.Data.List.Forall2

/-!
# Laws of traced computations

What a computation made of others calls and gives, from what they call and give.
-/

namespace Arbor.Traced

variable {α β γ : Type}

/-! ## One computation after another -/

theorem bind_of_ok {t : Traced α} {a : α} (h : t.result = .ok a) (f : α → Traced β) :
    t.bind f = ⟨t.calls ++ (f a).calls, (f a).result⟩ := by
  rw [bind, h]

theorem bind_of_error {t : Traced α} {fault : Fault} (h : t.result = .error fault)
    (f : α → Traced β) : t.bind f = ⟨t.calls, .error fault⟩ := by
  rw [bind, h]

theorem bind_assoc (t : Traced α) (f : α → Traced β) (f' : β → Traced γ) :
    (t.bind f).bind f' = t.bind fun a => (f a).bind f' := by
  cases ht : t.result with
  | error fault => rw [bind_of_error ht, bind_of_error ht, bind_of_error rfl]
  | ok a =>
    rw [bind_of_ok ht, bind_of_ok ht]
    cases ha : (f a).result with
    | error fault => rw [bind_of_error rfl, bind_of_error ha]
    | ok b =>
      rw [bind_of_ok rfl, bind_of_ok ha]
      simp

@[simp] theorem ofResult_bind (a : α) (f : α → Traced β) : (ofResult (.ok a)).bind f = f a := by
  rw [bind_of_ok rfl]
  rfl

@[simp] theorem bind_ofResult (t : Traced α) : (t.bind fun a => ofResult (.ok a)) = t := by
  cases ht : t.result with
  | error fault => rw [bind_of_error ht, ← ht]
  | ok a =>
    rw [bind_of_ok ht, ofResult, List.append_nil, ← ht]

theorem bind_error_iff (t : Traced α) (f : α → Traced β) (fault : Fault) :
    (t.bind f).result = .error fault ↔
      t.result = .error fault ∨ ∃ a, t.result = .ok a ∧ (f a).result = .error fault := by
  unfold bind
  cases t.result <;> simp

theorem bind_ok_iff (t : Traced α) (f : α → Traced β) (b : β) :
    (t.bind f).result = .ok b ↔ ∃ a, t.result = .ok a ∧ (f a).result = .ok b := by
  unfold bind
  cases t.result <;> simp

/-- The result of one computation after another, without the calls. -/
theorem result_bind (t : Traced α) (f : α → Traced β) :
    (t.bind f).result = t.result >>= fun a => (f a).result := by
  unfold bind
  cases t.result <;> rfl

/-! ## What a computation gives -/

/-- What a computation gives, if it does not fail. -/
def value? (t : Traced α) : Option α := t.result.toOption

theorem value?_eq_some_iff {t : Traced α} {a : α} : t.value? = some a ↔ t.result = .ok a := by
  unfold value?
  cases t.result <;> simp [Except.toOption]

@[simp] theorem value?_ofResult (a : α) : (ofResult (.ok a)).value? = some a := rfl

/-- One computation after another gives something if both do. -/
theorem value?_bind (t : Traced α) (f : α → Traced β) :
    (t.bind f).value? = t.value?.bind fun a => (f a).value? := by
  unfold value? bind
  cases t.result <;> rfl

/-! ## A computation for every item -/

theorem join_congr {bs : List β} {f f' : β → Traced (List α)} (h : ∀ b ∈ bs, f b = f' b) :
    join bs f = join bs f' := by
  induction bs with
  | nil => rfl
  | cons b bs ih =>
    rw [join_cons, join_cons, h b List.mem_cons_self,
      ih fun b' hb' => h b' (List.mem_cons_of_mem _ hb')]

theorem join_append (bs bs' : List β) (f : β → Traced (List α)) :
    join (bs ++ bs') f =
      (join bs f).bind fun xs => (join bs' f).bind fun ys => ofResult (.ok (xs ++ ys)) := by
  induction bs with
  | nil => exact ((ofResult_bind [] _).trans (bind_ofResult _)).symm
  | cons b bs ih =>
    simp only [List.cons_append, join_cons, ih, bind_assoc, ofResult_bind, List.append_assoc]

/-- If every item gives a piece, the pieces are put side by side. -/
theorem join_of_ok {bs : List β} {f : β → Traced (List α)} {pieces : List (List α)}
    (h : List.Forall₂ (fun b piece => (f b).result = .ok piece) bs pieces) :
    join bs f = ⟨bs.flatMap fun b => (f b).calls, .ok pieces.flatten⟩ := by
  induction h with
  | nil => rfl
  | cons hb _ ih =>
    rw [join_cons, bind_of_ok hb, ih, bind_of_ok rfl]
    simp [ofResult]

/-- The first item that fails ends the work. -/
theorem join_of_error {earlier later : List β} {b : β} {f : β → Traced (List α)} {fault : Fault}
    (hearlier : ∀ e ∈ earlier, ∃ piece, (f e).result = .ok piece)
    (hb : (f b).result = .error fault) :
    join (earlier ++ b :: later) f =
      ⟨(earlier ++ [b]).flatMap fun b => (f b).calls, .error fault⟩ := by
  induction earlier with
  | nil =>
    rw [List.nil_append, join_cons, bind_of_error hb]
    simp
  | cons e earlier ih =>
    obtain ⟨piece, hpiece⟩ := hearlier e List.mem_cons_self
    rw [List.cons_append, join_cons, bind_of_ok hpiece,
      ih fun e' he' => hearlier e' (List.mem_cons_of_mem _ he'), bind_of_error rfl]
    simp

/-- Either every item gives a piece, or there is a first one that fails. -/
theorem pieces_or_error (f : β → Traced (List α)) (bs : List β) :
    (∃ pieces, List.Forall₂ (fun b piece => (f b).result = .ok piece) bs pieces) ∨
      ∃ earlier b later fault, bs = earlier ++ b :: later ∧
        (∀ e ∈ earlier, ∃ piece, (f e).result = .ok piece) ∧ (f b).result = .error fault := by
  induction bs with
  | nil => exact Or.inl ⟨[], .nil⟩
  | cons b bs ih =>
    cases hb : (f b).result with
    | error fault => exact Or.inr ⟨[], b, bs, fault, rfl, by simp, hb⟩
    | ok piece =>
      rcases ih with ⟨pieces, hpieces⟩ | ⟨earlier, b', later, fault, rfl, hearlier, hfault⟩
      · exact Or.inl ⟨piece :: pieces, .cons hb hpieces⟩
      · refine Or.inr ⟨b :: earlier, b', later, fault, rfl, ?_, hfault⟩
        rw [List.forall_mem_cons]
        exact ⟨⟨piece, hb⟩, hearlier⟩

end Arbor.Traced
