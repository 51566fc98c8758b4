/-!
# Targets of colon links

A link such as `[[:Page|label]]` names its target between the colon and the bar. Only the label is
indexed.

## Main definitions

* `withoutTargets`: a text in which every link whose target starts with a colon has lost it.
-/

namespace FactIndex.Text

/-- The characters after the next bar, if there is one. -/
def afterBar? : List Char → Option (List Char)
  | [] => none
  | '|' :: rest => some rest
  | _ :: rest => afterBar? rest

theorem length_afterBar? {cs rest : List Char} (h : afterBar? cs = some rest) :
    rest.length < cs.length := by
  fun_induction afterBar? cs with
  | case1 => simp at h
  | case2 r => simp only [Option.some.injEq] at h; simp [h]
  | case3 c r _ ih => exact Nat.lt_succ_of_lt (ih h)

/-- The characters without the targets of colon links. A target reaches to the next bar, also across
the end of the link. -/
def dropTargets : List Char → List Char
  | '[' :: '[' :: ':' :: rest =>
    match h : afterBar? rest with
    | some after =>
      have : after.length < rest.length := length_afterBar? h
      '[' :: '[' :: dropTargets after
    | none => '[' :: dropTargets ('[' :: ':' :: rest)
  | c :: rest => c :: dropTargets rest
  | [] => []
termination_by cs => cs.length

/-- The text without the targets of colon links. -/
def withoutTargets (s : String) : String :=
  String.ofList (dropTargets s.toList)

end FactIndex.Text
