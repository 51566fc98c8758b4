import FactIndex.Text.Links
import Mathlib.Data.List.Infix

/-!
# Links without their targets

What is cut out of a text follows two opening brackets, starts with a colon and reaches to the next bar. No
heed is paid to where the link is closed: a colon link that has no bar of its own loses its end, and with it
all of the text up to a bar that stands somewhere behind it. So nothing but targets is cut out exactly if
every colon link that is followed by a bar has the bar before its end.

## Main definitions

* `NamesTarget`: a text in which a link names its target.
* `Cut`: a text with targets cut out of it, each under a condition.
* `LiesInLink`: a target that lies inside of one link.
* `KeepsToLinks`: every colon link that a bar follows has the bar before its end.
* `withoutTargets_eq_iff`: the texts that keep their form.
* `withoutTargets_inLinks_iff`: the texts that lose nothing but targets.
-/

namespace FactIndex.Text

/-! ## Texts that name a target -/

/-- Somewhere a link is opened with a colon, and a bar follows. -/
def NamesTarget (cs : List Char) : Prop :=
  ∃ before rest, cs = before ++ '[' :: '[' :: ':' :: rest ∧ '|' ∈ rest

theorem namesTarget_cons (c : Char) (cs : List Char) :
    NamesTarget (c :: cs) ↔
      (∃ rest, c :: cs = '[' :: '[' :: ':' :: rest ∧ '|' ∈ rest) ∨ NamesTarget cs := by
  constructor
  · rintro ⟨_ | ⟨b, before⟩, rest, h, hbar⟩
    · exact .inl ⟨rest, h, hbar⟩
    · exact .inr ⟨before, rest, (List.cons.inj h).2, hbar⟩
  · rintro (⟨rest, h, hbar⟩ | ⟨before, rest, rfl, hbar⟩)
    · exact ⟨[], rest, h, hbar⟩
    · exact ⟨c :: before, rest, rfl, hbar⟩

theorem afterBar?_eq_none_iff {cs : List Char} : afterBar? cs = none ↔ '|' ∉ cs := by
  fun_induction afterBar? cs with
  | case1 => simp
  | case2 rest => simp
  | case3 c rest hbar ih =>
      have hc : '|' ≠ c := fun h => hbar h.symm
      simp [ih, hc]

/-- What comes after the next bar, with what stands before it. -/
theorem afterBar?_eq_some_iff {cs after : List Char} :
    afterBar? cs = some after ↔ ∃ target, '|' ∉ target ∧ cs = target ++ '|' :: after := by
  fun_induction afterBar? cs with
  | case1 => simp
  | case2 rest =>
      constructor
      · intro h
        cases h
        exact ⟨[], List.not_mem_nil, rfl⟩
      · rintro ⟨_ | ⟨c, target⟩, hbar, h⟩
        · rw [(List.cons.inj h).2]
        · exact absurd (List.mem_cons.mpr (.inl (List.cons.inj h).1)) hbar
  | case3 c rest hc ih =>
      rw [ih]
      constructor
      · rintro ⟨target, hbar, rfl⟩
        refine ⟨c :: target, ?_, rfl⟩
        simpa [hbar] using fun h => hc h.symm
      · rintro ⟨_ | ⟨b, target⟩, hbar, h⟩
        · exact absurd (List.cons.inj h).1 hc
        · exact ⟨target, fun hmem => hbar (List.mem_cons_of_mem _ hmem), (List.cons.inj h).2⟩

/-- There is only one next bar. -/
theorem append_bar_inj {x y a b : List Char} (hx : '|' ∉ x) (hy : '|' ∉ y)
    (h : x ++ '|' :: a = y ++ '|' :: b) : x = y ∧ a = b := by
  have ha := afterBar?_eq_some_iff.mpr ⟨x, hx, h.symm⟩
  have hb := afterBar?_eq_some_iff.mpr ⟨y, hy, (rfl : y ++ '|' :: b = _)⟩
  rw [ha] at hb
  cases hb
  exact ⟨List.append_cancel_right h, rfl⟩

theorem length_dropTargets_le (cs : List Char) : (dropTargets cs).length ≤ cs.length := by
  fun_induction dropTargets cs with
  | case1 rest after h hlength ih => simp only [List.length_cons]; omega
  | case2 rest h ih => simpa using ih
  | case3 c rest h ih => simpa using ih
  | case4 => simp

/-- A target is dropped for good, so that only a text without targets keeps its length. -/
theorem dropTargets_eq_iff (cs : List Char) : dropTargets cs = cs ↔ ¬ NamesTarget cs := by
  fun_induction dropTargets cs with
  | case1 rest after h hlength ih =>
      have hshort := length_dropTargets_le after
      have hbar : '|' ∈ rest := Decidable.byContradiction fun hno => by
        rw [afterBar?_eq_none_iff.mpr hno] at h
        cases h
      refine iff_of_false (fun heq => ?_) (not_not_intro ⟨[], rest, rfl, hbar⟩)
      have := congrArg List.length heq
      simp only [List.length_cons] at this
      omega
  | case2 rest h ih =>
      have hno : '|' ∉ rest := afterBar?_eq_none_iff.mp h
      rw [namesTarget_cons, List.cons.injEq, ih, not_or]
      refine ⟨fun ⟨_, hrest⟩ => ⟨?_, hrest⟩, fun ⟨_, hrest⟩ => ⟨rfl, hrest⟩⟩
      rintro ⟨_, heq, hbar⟩
      cases heq
      exact hno hbar
  | case3 c rest hopen ih =>
      rw [namesTarget_cons, List.cons.injEq, ih, not_or]
      refine ⟨fun ⟨_, hrest⟩ => ⟨?_, hrest⟩, fun ⟨_, hrest⟩ => ⟨rfl, hrest⟩⟩
      rintro ⟨inner, heq, -⟩
      cases heq
      exact hopen inner rfl rfl
  | case4 => exact iff_of_true rfl (by rintro ⟨_ | _, _, h, -⟩ <;> cases h)

/-- Exactly the texts in which no link names its target keep their form. -/
theorem withoutTargets_eq_iff (s : String) : withoutTargets s = s ↔ ¬ NamesTarget s.toList := by
  rw [← dropTargets_eq_iff, withoutTargets]
  constructor
  · intro h
    simpa using congrArg String.toList h
  · intro h
    rw [h, String.ofList_toList]

/-! ## Targets that are cut out -/

/-- A text with targets of links cut out of it. Each one follows two opening brackets, starts with a colon and
ends with a bar. What stands between the two and what comes after the bar meets a condition. -/
inductive Cut (ok : List Char → List Char → Prop) : List Char → List Char → Prop
  | nil : Cut ok [] []
  | keep (c : Char) {cs rest : List Char} (h : Cut ok cs rest) : Cut ok (c :: cs) (c :: rest)
  | drop {target after rest : List Char} (htarget : ok target after) (h : Cut ok after rest) :
      Cut ok ('[' :: '[' :: ':' :: (target ++ '|' :: after)) ('[' :: '[' :: rest)

/-- The end of a link. -/
def closing : List Char := [']', ']']

/-- A target lies inside of one link: the link is not closed before the bar, and it is closed after it. -/
def LiesInLink (target after : List Char) : Prop := ¬ closing <:+: target ∧ closing <:+: after

/-- Wherever a link is opened with a colon and a bar follows, the link is not closed before the next bar,
and it is closed after it. -/
def KeepsToLinks (cs : List Char) : Prop :=
  ∀ before target after, cs = before ++ '[' :: '[' :: ':' :: (target ++ '|' :: after) → '|' ∉ target →
    LiesInLink target after

variable {ok : List Char → List Char → Prop} {c : Char} {cs rest target after x : List Char}

theorem Cut.head?_eq (h : Cut ok cs rest) : rest.head? = cs.head? := by
  cases h <;> rfl

theorem keepsToLinks_cons : KeepsToLinks (c :: cs) ↔
    (∀ target after, c :: cs = '[' :: '[' :: ':' :: (target ++ '|' :: after) → '|' ∉ target →
      LiesInLink target after) ∧ KeepsToLinks cs := by
  constructor
  · intro h
    refine ⟨fun target after => h [] target after, fun before target after heq => ?_⟩
    exact h (c :: before) target after (congrArg (c :: ·) heq)
  · rintro ⟨hfirst, hrest⟩ (_ | ⟨b, before⟩) target after heq
    · exact hfirst target after heq
    · exact hrest before target after (List.cons.inj heq).2

/-- Up to a bar inside of a link, all links are opened before the bar and closed after it. -/
theorem keepsToLinks_append_bar (hbar : '|' ∉ x) (hx : ¬ closing <:+: x) (hclosed : closing <:+: after)
    (h : KeepsToLinks after) : KeepsToLinks (x ++ '|' :: after) := by
  induction x with
  | nil =>
      refine keepsToLinks_cons.mpr ⟨fun target after heq => ?_, h⟩
      cases heq
  | cons c x ih =>
      refine keepsToLinks_cons.mpr ⟨fun target after' heq htarget => ?_, ?_⟩
      · have hopen : '|' ∉ '[' :: '[' :: ':' :: target := by simpa using htarget
        obtain ⟨hx', rfl⟩ := append_bar_inj hbar hopen heq
        refine ⟨fun hin => hx ?_, hclosed⟩
        rw [hx']
        exact hin.trans (List.suffix_append ['[', '[', ':'] target).isInfix
      · exact ih (fun hmem => hbar (List.mem_cons_of_mem _ hmem))
          fun hin => hx (hin.trans (List.suffix_cons c x).isInfix)

/-! ## What is always cut out -/

/-- Every target that is cut out reaches to the next bar. -/
theorem cut_dropTargets (cs : List Char) : Cut (fun target _ => '|' ∉ target) cs (dropTargets cs) := by
  fun_induction dropTargets cs with
  | case1 rest after h hlength ih =>
      obtain ⟨target, hbar, rfl⟩ := afterBar?_eq_some_iff.mp h
      exact .drop hbar ih
  | case2 rest h ih => exact .keep _ ih
  | case3 c rest h ih => exact .keep _ ih
  | case4 => exact .nil

/-- A text is cut before and after a bar. Before it two characters stay, or all of them. -/
theorem exists_cut_after (hbar : '|' ∉ x)
    (h : Cut (fun target _ => '|' ∉ target) (x ++ '|' :: after) rest) :
    ∃ later, Cut (fun target _ => '|' ∉ target) after later ∧
      later.length + min 2 (x.length + 1) ≤ rest.length := by
  induction x generalizing rest with
  | nil =>
      cases h with
      | keep _ h => exact ⟨_, h, by simp⟩
  | cons c x ih =>
      generalize hcs : c :: x ++ '|' :: after = cs at h
      cases h with
      | nil => cases hcs
      | keep _ h =>
          cases hcs
          obtain ⟨later, hlater, hlength⟩ := ih (fun hmem => hbar (List.mem_cons_of_mem _ hmem)) h
          refine ⟨later, hlater, ?_⟩
          simp only [List.length_cons]
          omega
      | @drop target after' later htarget h =>
          have hopen : '|' ∉ '[' :: '[' :: ':' :: target := by simpa using htarget
          obtain ⟨-, rfl⟩ := append_bar_inj hbar hopen hcs
          refine ⟨later, h, ?_⟩
          simp only [List.length_cons]
          omega

/-- As much is cut out as can be. -/
theorem length_dropTargets_le_of_cut (h : Cut (fun target _ => '|' ∉ target) cs rest) :
    (dropTargets cs).length ≤ rest.length := by
  fun_induction dropTargets cs generalizing rest with
  | case1 inner after hafter hlength ih =>
      obtain ⟨target, hbar, rfl⟩ := afterBar?_eq_some_iff.mp hafter
      have hopen : '|' ∉ '[' :: '[' :: ':' :: target := by simpa using hbar
      obtain ⟨later, hlater, hle⟩ := exists_cut_after hopen h
      have := ih hlater
      simp only [List.length_cons] at hle ⊢
      omega
  | case2 inner hafter ih =>
      generalize hcs : '[' :: '[' :: ':' :: inner = cs at h
      cases h with
      | nil => cases hcs
      | keep _ h =>
          cases hcs
          exact Nat.succ_le_succ (ih h)
      | drop htarget h =>
          cases hcs
          exact absurd (List.mem_append_right _ List.mem_cons_self) (afterBar?_eq_none_iff.mp hafter)
  | case3 c inner hopen ih =>
      generalize hcs : c :: inner = cs at h
      cases h with
      | nil => cases hcs
      | keep _ h =>
          cases hcs
          exact Nat.succ_le_succ (ih h)
      | drop htarget h =>
          cases hcs
          exact (hopen _ rfl rfl).elim
  | case4 => exact Nat.zero_le _

/-! ## Ends of links

A target inside of a link takes no end of a link away, and nothing that comes after the last one. -/

/-- How many ends of links there are. -/
def closings : List Char → Nat
  | [] => 0
  | c :: cs => closings cs + if c = ']' ∧ cs.head? = some ']' then 1 else 0

/-- How many characters come after the last end of a link. -/
def unclosed : List Char → Nat
  | [] => 0
  | c :: cs => unclosed cs + if closings (c :: cs) = 0 then 1 else 0

theorem closings_eq_zero_iff : closings cs = 0 ↔ ¬ closing <:+: cs := by
  induction cs with
  | nil => simp [closings, closing]
  | cons c cs ih =>
      have hfront : closing <+: c :: cs ↔ c = ']' ∧ cs.head? = some ']' := by
        cases cs <;> simp [closing, List.cons_prefix_cons, eq_comm]
      rw [List.infix_cons_iff, not_or, hfront, ← ih, closings]
      split <;> simp_all

theorem closings_append_bar (x after : List Char) :
    closings (x ++ '|' :: after) = closings x + closings after := by
  induction x with
  | nil => simp [closings]
  | cons c x ih =>
      have hhead : (x ++ '|' :: after).head? = some ']' ↔ x.head? = some ']' := by
        cases x <;> simp
      simp only [List.cons_append, closings, ih, hhead]
      omega

theorem closings_open (cs : List Char) : closings ('[' :: '[' :: cs) = closings cs := by
  simp [closings]

theorem closings_target (target after : List Char) :
    closings ('[' :: '[' :: ':' :: (target ++ '|' :: after)) = closings target + closings after := by
  simp [closings, closings_append_bar]

/-- Where no link is closed, all characters come after the last end of a link. -/
theorem unclosed_of_closings (h : closings cs = 0) : unclosed cs = cs.length := by
  induction cs with
  | nil => rfl
  | cons c cs ih =>
      have hrest : closings cs = 0 := by
        rw [closings] at h
        omega
      rw [unclosed, if_pos h, ih hrest, List.length_cons]

theorem closings_le_append (x cs : List Char) : closings cs ≤ closings (x ++ cs) := by
  induction x with
  | nil => exact Nat.le_refl _
  | cons c x ih =>
      rw [List.cons_append, closings]
      omega

theorem unclosed_append (x : List Char) (h : 0 < closings cs) : unclosed (x ++ cs) = unclosed cs := by
  induction x with
  | nil => rfl
  | cons c x ih =>
      have hle := closings_le_append (c :: x) cs
      rw [List.cons_append] at hle ⊢
      rw [unclosed, ih, if_neg (by omega), Nat.add_zero]

theorem unclosed_open (h : 0 < closings cs) : unclosed ('[' :: '[' :: cs) = unclosed cs :=
  unclosed_append ['[', '['] h

theorem unclosed_target (target : List Char) (h : 0 < closings after) :
    unclosed ('[' :: '[' :: ':' :: (target ++ '|' :: after)) = unclosed after := by
  simpa using unclosed_append ('[' :: '[' :: ':' :: (target ++ ['|'])) h

/-- Targets inside of links leave all ends of links and what comes after the last of them. -/
theorem Cut.closings_eq (h : Cut LiesInLink cs rest) :
    closings rest = closings cs ∧ unclosed rest = unclosed cs := by
  induction h with
  | nil => exact ⟨rfl, rfl⟩
  | @keep c cs rest h ih =>
      have hsame : closings (c :: rest) = closings (c :: cs) := by
        rw [closings, closings, h.head?_eq, ih.1]
      exact ⟨hsame, by rw [unclosed, unclosed, hsame, ih.2]⟩
  | @drop target after rest htarget h ih =>
      have hnone := closings_eq_zero_iff.mpr htarget.1
      have hsome : 0 < closings after :=
        Nat.pos_of_ne_zero fun hzero => closings_eq_zero_iff.mp hzero htarget.2
      constructor
      · rw [closings_open, closings_target, ih.1]
        omega
      · rw [unclosed_open (ih.1.symm ▸ hsome), unclosed_target target hsome, ih.2]

/-- What a text loses of the ends of its links: some of them, or some of what comes after the last one, or
neither, and in this case something is known of the text. -/
structure Loses (cs rest : List Char) (kept : Prop) : Prop where
  closings_le : closings rest ≤ closings cs
  unclosed_le : closings rest = closings cs → unclosed rest ≤ unclosed cs
  of_eq : closings rest = closings cs → unclosed rest = unclosed cs → kept

/-- A character in front loses nothing. -/
theorem Loses.cons {kept : Prop} (h : Loses cs rest kept) (hhead : rest.head? = cs.head?) (c : Char) :
    Loses (c :: cs) (c :: rest) kept := by
  have hcs : closings (c :: rest) = closings (c :: cs) ↔ closings rest = closings cs := by
    rw [closings, closings, hhead]
    omega
  have hunclosed (hsame : closings rest = closings cs) :
      unclosed (c :: rest) + unclosed cs = unclosed (c :: cs) + unclosed rest := by
    rw [unclosed, unclosed, hcs.mpr hsame]
    omega
  refine ⟨?_, fun hsame => ?_, fun hsame hlast => ?_⟩
  · have := h.closings_le
    rw [closings, closings, hhead]
    omega
  · have := hunclosed (hcs.mp hsame)
    have := h.unclosed_le (hcs.mp hsame)
    omega
  · have := hunclosed (hcs.mp hsame)
    exact h.of_eq (hcs.mp hsame) (by omega)

/-- A target that holds ends of links takes them away, and one that no end of a link comes after is itself
lost after the last one. -/
theorem Loses.drop (h : Loses after rest (KeepsToLinks after)) (hbar : '|' ∉ target)
    (hlength : rest.length ≤ after.length) :
    Loses ('[' :: '[' :: ':' :: (target ++ '|' :: after)) ('[' :: '[' :: rest)
      (KeepsToLinks ('[' :: '[' :: ':' :: (target ++ '|' :: after))) := by
  have hle := h.closings_le
  have hopen := closings_open rest
  have htarget := closings_target target after
  by_cases hnone : closings after = 0
  · have hshort (hsame : closings target = 0) : unclosed ('[' :: '[' :: rest) <
        unclosed ('[' :: '[' :: ':' :: (target ++ '|' :: after)) := by
      rw [unclosed_of_closings (by omega), unclosed_of_closings (by omega)]
      simp only [List.length_cons, List.length_append]
      omega
    refine ⟨by omega, fun hsame => (hshort (by omega)).le, fun hsame hlast => ?_⟩
    exact absurd hlast (hshort (by omega)).ne
  · have hsome : 0 < closings after := Nat.pos_of_ne_zero hnone
    have hlast (hsame : closings rest = closings after) : unclosed ('[' :: '[' :: rest) = unclosed rest :=
      unclosed_open (hsame ▸ hsome)
    refine ⟨by omega, fun hsame => ?_, fun hsame heq => ?_⟩
    · rw [unclosed_target target hsome, hlast (by omega)]
      exact h.unclosed_le (by omega)
    · rw [unclosed_target target hsome, hlast (by omega)] at heq
      have hkept := h.of_eq (by omega) heq
      have hx : ¬ closing <:+: '[' :: '[' :: ':' :: target := by
        rw [← closings_eq_zero_iff]
        simp [closings]
        omega
      have hclosed : closing <:+: after := Decidable.not_not.mp (mt closings_eq_zero_iff.mpr hnone)
      exact keepsToLinks_append_bar (x := '[' :: '[' :: ':' :: target) (by simpa using hbar) hx hclosed hkept

/-- A target that is not inside of a link is lost with an end of a link or after the last one. -/
theorem loses_dropTargets (cs : List Char) : Loses cs (dropTargets cs) (KeepsToLinks cs) := by
  fun_induction dropTargets cs with
  | case1 rest after hafter hlength ih =>
      obtain ⟨target, hbar, rfl⟩ := afterBar?_eq_some_iff.mp hafter
      exact ih.drop hbar (length_dropTargets_le after)
  | case2 rest hafter ih =>
      have hkept : KeepsToLinks ('[' :: ':' :: rest) → KeepsToLinks ('[' :: '[' :: ':' :: rest) := by
        refine fun h => keepsToLinks_cons.mpr ⟨fun target after heq => ?_, h⟩
        cases heq
        exact absurd (List.mem_append_right _ List.mem_cons_self) (afterBar?_eq_none_iff.mp hafter)
      have hstep := ih.cons (cut_dropTargets _).head?_eq '['
      exact ⟨hstep.closings_le, hstep.unclosed_le, fun h h' => hkept (hstep.of_eq h h')⟩
  | case3 c rest hopen ih =>
      have hkept : KeepsToLinks rest → KeepsToLinks (c :: rest) := by
        refine fun h => keepsToLinks_cons.mpr ⟨fun target after heq => ?_, h⟩
        cases heq
        exact (hopen _ rfl rfl).elim
      have hstep := ih.cons (cut_dropTargets _).head?_eq c
      exact ⟨hstep.closings_le, hstep.unclosed_le, fun h h' => hkept (hstep.of_eq h h')⟩
  | case4 => exact ⟨Nat.le_refl _, fun _ => Nat.le_refl _, fun _ _ before _ _ h => by cases before <;> cases h⟩

/-- A text that is cut inside of links only has its targets there. -/
theorem keepsToLinks_of_cut (h : Cut LiesInLink cs (dropTargets cs)) : KeepsToLinks cs :=
  (loses_dropTargets cs).of_eq h.closings_eq.1 h.closings_eq.2

theorem cut_of_keepsToLinks (h : KeepsToLinks cs) : Cut LiesInLink cs (dropTargets cs) := by
  fun_induction dropTargets cs with
  | case1 rest after hafter hlength ih =>
      obtain ⟨target, hbar, rfl⟩ := afterBar?_eq_some_iff.mp hafter
      refine .drop (h [] target after rfl hbar) (ih fun before target' after' heq => ?_)
      refine h ('[' :: '[' :: ':' :: (target ++ '|' :: before)) target' after' ?_
      simp [heq]
  | case2 rest hafter ih => exact .keep _ (ih (keepsToLinks_cons.mp h).2)
  | case3 c rest hopen ih => exact .keep _ (ih (keepsToLinks_cons.mp h).2)
  | case4 => exact .nil

/-- What is cut out of a text follows two opening brackets, starts with a colon and ends with the next bar,
and as much is cut out as can be. All of it lies inside of links exactly if every colon link that a bar
follows has the next bar before its end. -/
theorem withoutTargets_inLinks_iff (s : String) :
    Cut (fun target _ => '|' ∉ target) s.toList (withoutTargets s).toList ∧
      (∀ rest, Cut (fun target _ => '|' ∉ target) s.toList rest →
        (withoutTargets s).toList.length ≤ rest.length) ∧
      (Cut LiesInLink s.toList (withoutTargets s).toList ↔ KeepsToLinks s.toList) := by
  have hleft : (withoutTargets s).toList = dropTargets s.toList := String.toList_ofList
  rw [hleft]
  exact ⟨cut_dropTargets _, fun _ => length_dropTargets_le_of_cut, keepsToLinks_of_cut, cut_of_keepsToLinks⟩

/-- A link without a label, and a bar that stands somewhere behind it. -/
example : withoutTargets "[[:A]] x | y" = "[[ y" := by cbv

end FactIndex.Text
