import Arbor.Drawing.Bounds
import Arbor.Drawing.Markup

/-!
# Drawings as SVG

A drawing is an SVG document whose view box is the bounds of its segments widened by a margin,
with one line element per segment. A title and a background are optional; so are a width and a
height for the document. Growth points up, so the drawing is normally flipped about the middle
of its box.
-/

namespace Arbor

/-- How lines are drawn. -/
structure SvgStyle where
  stroke : LooseText := "#000"
  /-- The multiplier of the diameters. -/
  widthScale : Float := 1.0
  minWidth : Float := 0.1
  lineCap : LooseText := "round"

/-- How a drawing is laid out. -/
structure SvgOptions where
  margin : Option Float := some 10.0
  places : Int := 3
  flipY : Bool := true
  width : Option Float := none
  height : Option Float := none
  style : SvgStyle := {}
  background : Option LooseText := none

instance : Inhabited SvgStyle := ⟨{}⟩

instance : Inhabited SvgOptions := ⟨{}⟩

/-- A view box: its corner and its extent. -/
structure ViewBox where
  minX : Float
  minY : Float
  width : Float
  height : Float

namespace Svg

/-- The bounds widened by a margin on every side. There has to be one, even if it is zero. -/
def widen (b : Bounds) : Option Float → Except Fault Bounds
  | some margin => .ok ⟨b.minX - margin, b.minY - margin, b.maxX + margin, b.maxY + margin⟩
  | none => .error .noMargin

/-- The view box of bounds that have been widened; its extent has to be positive. -/
def viewBox (b : Bounds) : Except Fault ViewBox :=
  let width := b.maxX - b.minX
  let height := b.maxY - b.minY
  if 0.0 < width && 0.0 < height then .ok ⟨b.minX, b.minY, width, height⟩
  else .error .degenerateBox

/-- The attribute of a size that is given and not zero. -/
def sizeAttributes (places : Nat) (name : String) : Option Float → List (String × LooseText)
  | some x => if x == 0.0 then [] else [(name, Markup.coordinate places x)]
  | none => []

def showsBackground (background : LooseText) : Bool :=
  !background.isEmpty && (background.toString?.map fun s => s.map Char.toLower) != some "none"

/-- The line of the title, if there is one to show. -/
def titleLines (title : Option LooseText) : List LooseText :=
  match title with
  | some text =>
    if text.isEmpty then []
    else [LooseText.ofString "  <title>" ++ Markup.escape text ++ LooseText.ofString "</title>"]
  | none => []

/-- The attributes of a background that fills the box. -/
def backgroundAttributes (places : Nat) (box : ViewBox) (fill : LooseText) :
    List (String × LooseText) := [
  ("x", Markup.coordinate places box.minX),
  ("y", Markup.coordinate places box.minY),
  ("width", Markup.coordinate places box.width),
  ("height", Markup.coordinate places box.height),
  ("fill", fill)]

/-- The line of the background, if there is one to draw. -/
def backgroundLines (places : Nat) (box : ViewBox) (background : Option LooseText) :
    List LooseText :=
  match background with
  | some fill =>
    if showsBackground fill then
      [Markup.tag "  <rect" (backgroundAttributes places box fill) " />"]
    else []
  | none => []

def groupAttributes (places : Nat) (b : Bounds) (options : SvgOptions) :
    List (String × LooseText) :=
  let flip := Markup.coordinate places (b.minY + b.maxY)
  let transform : List (String × LooseText) :=
    if options.flipY then [("transform", s!"translate(0,{flip}) scale(1,-1)")] else []
  transform ++ [
    ("stroke", options.style.stroke),
    ("stroke-linecap", options.style.lineCap)]

def groupLine (places : Nat) (b : Bounds) (options : SvgOptions) : LooseText :=
  Markup.tag "  <g" (groupAttributes places b options) ">"

def segmentAttributes (places : Nat) (style : SvgStyle) (s : Segment) :
    List (String × LooseText) :=
  let width := greater style.minWidth (s.diameter * style.widthScale)
  [("x1", Markup.coordinate places s.start.x),
    ("y1", Markup.coordinate places s.start.y),
    ("x2", Markup.coordinate places s.stop.x),
    ("y2", Markup.coordinate places s.stop.y),
    ("stroke-width", Markup.coordinate places width)]

def segmentLine (places : Nat) (style : SvgStyle) (s : Segment) : LooseText :=
  Markup.tag "    <line" (segmentAttributes places style s) " />"

def openingAttributes (places : Nat) (box : ViewBox) (options : SvgOptions) :
    List (String × LooseText) :=
  let x := Markup.coordinate places box.minX
  let y := Markup.coordinate places box.minY
  let width := Markup.coordinate places box.width
  let height := Markup.coordinate places box.height
  let shape : List (String × LooseText) := [
    ("xmlns", "http://www.w3.org/2000/svg"),
    ("version", "1.1"),
    ("viewBox", s!"{x} {y} {width} {height}")]
  shape ++ sizeAttributes places "width" options.width ++
    sizeAttributes places "height" options.height

/-- The line that opens a document with the given box. -/
def openingLine (places : Nat) (box : ViewBox) (options : SvgOptions) : LooseText :=
  Markup.tag "<svg" (openingAttributes places box options) ">"

def documentLines (segments : List Segment) (options : SvgOptions) (title : Option LooseText)
    (places : Nat) (b : Bounds) (box : ViewBox) : List LooseText :=
  [LooseText.ofString "<?xml version=\"1.0\" encoding=\"UTF-8\"?>",
    openingLine places box options] ++
    titleLines title ++ backgroundLines places box options.background ++
    [groupLine places b options] ++ segments.map (segmentLine places options.style) ++
    [LooseText.ofString "  </g>", LooseText.ofString "</svg>"]

/-- The document that shows `segments`; each of its lines is ended. -/
def render (segments : List Segment) (options : SvgOptions) (title : Option LooseText) :
    Except Fault LooseText := do
  let bounds ← Bounds.ofSegments segments
  let widened ← widen bounds options.margin
  let box ← viewBox widened
  let places ← Markup.readPlaces options.places
  let lines := documentLines segments options title places widened box
  return lines.flatMap fun line => line ++ [.char '\n']

end Svg

end Arbor
