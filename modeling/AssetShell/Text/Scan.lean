/-!
# Reading from texts

A scan reads what a text starts with, and gives it with the rest of the text. Parts between brackets
are divided by commas; a comma may stand behind the last one.
-/

namespace AssetShell

abbrev Scan (α : Type) := List Char → Option (α × List Char)

namespace Scan

variable {α : Type}

/-- The parts up to the closing bracket. What may stand around a part is skipped. -/
def parts? (skip : List Char → List Char) (close : Char) (part? : Scan α) (cs : List Char) :
    Option (List α × List Char) :=
  match skip cs with
  | [] => none
  | c :: r =>
    if c = close then some ([], r) else
    match part? (c :: r) with
    | none => none
    | some (a, r) =>
      match skip r with
      | [] => none
      | c :: r =>
        if c = close then some ([a], r)
        else if c = ',' then
          if _h : r.length < cs.length then
            (parts? skip close part? r).map fun (parts, rest) => (a :: parts, rest)
          else none
        else none
termination_by cs.length

def behind? : List Char → List Char → Option (List Char)
  | [], cs => some cs
  | _ :: _, [] => none
  | a :: word, c :: cs => if a = c then behind? word cs else none

/-- What follows a comment in stars, read behind its start. In `nested` ones comments may stand, of
which so many are to be closed before the comment itself. -/
def behindStars? (nested : Bool) : Nat → List Char → Option (List Char)
  | _, [] => none
  | 0, '*' :: '/' :: r => some r
  | inner + 1, '*' :: '/' :: r => behindStars? nested inner r
  | inner, '/' :: '*' :: r => behindStars? nested (if nested then inner + 1 else inner) r
  | inner, _ :: r => behindStars? nested inner r

theorem length_behindStars {nested : Bool} {inner : Nat} {cs r : List Char}
    (h : behindStars? nested inner cs = some r) : r.length < cs.length := by
  fun_induction behindStars? nested inner cs with
  | case1 => cases h
  | case2 => cases h; simp only [List.length_cons]; omega
  | case3 _ _ ih => have := ih h; simp only [List.length_cons]; omega
  | case4 _ _ ih => have := ih h; simp only [List.length_cons]; omega
  | case5 _ _ _ _ _ _ ih => have := ih h; simp only [List.length_cons]; omega

/-- Skips blanks, comments behind two slashes, and comments in stars. -/
def skipComments (isBlank isLineEnd : Char → Bool) (nested : Bool) : List Char → List Char
  | [] => []
  | '/' :: '/' :: r => skipComments isBlank isLineEnd nested (r.dropWhile (!isLineEnd ·))
  | '/' :: '*' :: r =>
    match _h : behindStars? nested 0 r with
    | some rest => skipComments isBlank isLineEnd nested rest
    | none => '/' :: '*' :: r
  | c :: r => if isBlank c then skipComments isBlank isLineEnd nested r else c :: r
termination_by cs => cs.length
decreasing_by
  · have := (List.dropWhile_sublist (!isLineEnd ·) (l := r)).length_le
    simp only [List.length_cons]
    omega
  · have := length_behindStars _h
    simp only [List.length_cons]
    omega
  · simp

end Scan

end AssetShell
