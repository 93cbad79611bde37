import AssetShell.Json.Token

/-!
# Outlines

The outline of a text is what a reader meets from left to right, up to the first place where the
text breaks the form. A group that is cut there is not closed. Whoever decodes an outline in order
finds a defect of the data and a defect of the form in the order in which they stand in the text.
-/

namespace AssetShell

inductive Outline
  | null
  | bool (value : Bool)
  | number (value : Numeral)
  | string (value : Option String)
  | array (items : List Outline) (closed : Bool)
  | object (members : List (Option String × Outline)) (closed : Bool)
  | broken
  deriving Repr

namespace Outline

inductive ArrayPlace
  | itemOrClose
  | item
  | commaOrClose
  deriving DecidableEq, Repr

inductive ObjectPlace
  | nameOrClose
  | name
  | colon (name : Option String)
  | value (name : Option String)
  | commaOrClose
  deriving DecidableEq, Repr

/-- An open group: what it holds, last first, and what may come next. -/
inductive Frame
  | array (held : List Outline) (place : ArrayPlace)
  | object (held : List (Option String × Outline)) (place : ObjectPlace)
  deriving Repr

namespace Frame

def wantsValue : Frame → Bool
  | .array _ .itemOrClose => true
  | .array _ .item => true
  | .object _ (.value _) => true
  | _ => false

/-- A value takes its place in the group. -/
def put (v : Outline) : Frame → Frame
  | .array held _ => .array (v :: held) .commaOrClose
  | .object held (.value name) => .object ((name, v) :: held) .commaOrClose
  | frame => frame

/-- The group as it stands, cut before its end. A name that waits for its value gets a broken one. -/
def cut : Frame → Outline
  | .array held _ => .array held.reverse false
  | .object held (.colon name) => .object ((name, .broken) :: held).reverse false
  | .object held (.value name) => .object ((name, .broken) :: held).reverse false
  | .object held _ => .object held.reverse false

end Frame

def cutAll : List Frame → Outline
  | [] => .broken
  | frame :: outer => outer.foldl (fun inner frame => (frame.put inner).cut) frame.cut

inductive Advance
  | go (frames : List Frame)
  | finish (value : Outline) (outer : List Frame)
  | stop

def wantsValue : List Frame → Bool
  | [] => true
  | frame :: _ => frame.wantsValue

def advance (frames : List Frame) : Token → Advance
  | .openArray =>
    if wantsValue frames then .go (.array [] .itemOrClose :: frames) else .stop
  | .openObject =>
    if wantsValue frames then .go (.object [] .nameOrClose :: frames) else .stop
  | .null => if wantsValue frames then .finish .null frames else .stop
  | .bool b => if wantsValue frames then .finish (.bool b) frames else .stop
  | .number n => if wantsValue frames then .finish (.number n) frames else .stop
  | .string s =>
    match frames with
    | .object held .nameOrClose :: outer => .go (.object held (.colon s) :: outer)
    | .object held .name :: outer => .go (.object held (.colon s) :: outer)
    | _ => if wantsValue frames then .finish (.string s) frames else .stop
  | .colon =>
    match frames with
    | .object held (.colon name) :: outer => .go (.object held (.value name) :: outer)
    | _ => .stop
  | .comma =>
    match frames with
    | .array held .commaOrClose :: outer => .go (.array held .item :: outer)
    | .object held .commaOrClose :: outer => .go (.object held .name :: outer)
    | _ => .stop
  | .closeArray =>
    match frames with
    | .array held .itemOrClose :: outer => .finish (.array held.reverse true) outer
    | .array held .commaOrClose :: outer => .finish (.array held.reverse true) outer
    | _ => .stop
  | .closeObject =>
    match frames with
    | .object held .nameOrClose :: outer => .finish (.object held.reverse true) outer
    | .object held .commaOrClose :: outer => .finish (.object held.reverse true) outer
    | _ => .stop
  | .stray => .stop

/-- Reads one value. The flag says that nothing follows it. -/
def read (frames : List Frame) : List Token → Outline × Bool
  | [] => (cutAll frames, false)
  | t :: ts =>
    match advance frames t with
    | .go frames => read frames ts
    | .finish v [] => (v, ts.isEmpty)
    | .finish v (frame :: outer) => read (frame.put v :: outer) ts
    | .stop => (cutAll frames, false)

def ofText (s : String) : Outline × Bool := read [] (Token.ofChars s.toList)

mutual

/-- Whether the text kept to the form all through the outline. -/
def isWhole : Outline → Bool
  | .array items closed => closed && areWhole items
  | .object members closed => closed && membersAreWhole members
  | .broken => false
  | _ => true

def areWhole : List Outline → Bool
  | [] => true
  | v :: r => v.isWhole && areWhole r

def membersAreWhole : List (Option String × Outline) → Bool
  | [] => true
  | (_, v) :: r => v.isWhole && membersAreWhole r

end

mutual

/-- The value, if the outline is whole, its numerals are in range, its strings have contents and its
groups nest at most `levels` deep. -/
def value? (levels : Nat) : Outline → Option Json
  | .null => some .null
  | .bool b => some (.bool b)
  | .number n => n.value?.map .number
  | .string s => s.map .string
  | .array items closed =>
    if closed ∧ 0 < levels then (values? (levels - 1) items).map .array else none
  | .object members closed =>
    if closed ∧ 0 < levels then (memberValues? (levels - 1) members).map .object else none
  | .broken => none

def values? (levels : Nat) : List Outline → Option (List Json)
  | [] => some []
  | v :: r =>
    match value? levels v, values? levels r with
    | some v, some r => some (v :: r)
    | _, _ => none

def memberValues? (levels : Nat) :
    List (Option String × Outline) → Option (List (String × Json))
  | [] => some []
  | (name, v) :: r =>
    match name, value? levels v, memberValues? levels r with
    | some name, some v, some r => some ((name, v) :: r)
    | _, _, _ => none

end

end Outline

namespace Json

def maxLevels : Nat := 127

def ofText? (s : String) : Option Json :=
  let (outline, alone) := Outline.ofText s
  if alone then (outline.value? maxLevels).map canonical else none

end Json

end AssetShell
