/-!
# Texts cut at a separator

A text is cut at every occurrence of a separating character. There is always at least one part, and
joining the parts gives the text back.

## Main definitions

* `cut`: the parts of a text.
* `replaceChar`, `replaceText`: every occurrence of a character or of a text replaced.
-/

namespace FactIndex.Text

/-- The parts between the occurrences of the separator. -/
def cutChars (sep : Char) : List Char → List (List Char)
  | [] => [[]]
  | c :: rest =>
    if c = sep then [] :: cutChars sep rest
    else
      match cutChars sep rest with
      | part :: parts => (c :: part) :: parts
      | [] => [[c]]

/-- The parts of a text between the occurrences of the separator. -/
def cut (sep : Char) (s : String) : List String :=
  (cutChars sep s.toList).map String.ofList

theorem cutChars_ne_nil (sep : Char) (cs : List Char) : cutChars sep cs ≠ [] := by
  cases cs with
  | nil => simp [cutChars]
  | cons c rest =>
    unfold cutChars
    split
    · simp
    · split <;> simp

/-- A text without the separator is its only part. -/
theorem cutChars_of_not_mem {sep : Char} {cs : List Char} (h : sep ∉ cs) :
    cutChars sep cs = [cs] := by
  induction cs with
  | nil => rfl
  | cons c rest ih =>
    have hc : c ≠ sep := fun e => h (by simp [e])
    have hr : sep ∉ rest := fun m => h (by simp [m])
    simp [cutChars, hc, ih hr]

/-- A part without the separator, then the separator, then the parts of what follows. -/
theorem cutChars_append {sep : Char} {cs : List Char} (h : sep ∉ cs) (rest : List Char) :
    cutChars sep (cs ++ sep :: rest) = cs :: cutChars sep rest := by
  induction cs with
  | nil => simp [cutChars]
  | cons c cs ih =>
    have hc : c ≠ sep := fun e => h (by simp [e])
    have hr : sep ∉ cs := fun m => h (by simp [m])
    simp [cutChars, hc, ih hr]

/-- The text with every occurrence of a character replaced. -/
def replaceChar (old new : Char) (s : String) : String :=
  String.ofList (s.toList.map fun c => if c = old then new else c)

/-- The characters with every occurrence of `old`, which is not empty, replaced, from the left and
without overlap. -/
def replaceChars (old new : List Char) : Nat → List Char → List Char
  | _, [] => []
  | pending + 1, _ :: rest => replaceChars old new pending rest
  | 0, c :: rest =>
    if old.isPrefixOf (c :: rest) then new ++ replaceChars old new (old.length - 1) rest
    else c :: replaceChars old new 0 rest

/-- The text with every occurrence of a text that is not empty replaced. -/
def replaceText (old new s : String) : String :=
  String.ofList (replaceChars old.toList new.toList 0 s.toList)

/-- Whether a text occurs in the characters. -/
def occursIn (needle : List Char) : List Char → Bool
  | [] => needle.isEmpty
  | c :: rest => needle.isPrefixOf (c :: rest) || occursIn needle rest

/-- Whether a text occurs in another. -/
def occurs (needle s : String) : Bool := occursIn needle.toList s.toList

/-- What follows a text at the front of another, if it stands there. -/
def afterFront? (front s : String) : Option String :=
  if front.toList.isPrefixOf s.toList then some (String.ofList (s.toList.drop front.length))
  else none

end FactIndex.Text
