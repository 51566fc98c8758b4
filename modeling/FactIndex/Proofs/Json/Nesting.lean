import FactIndex.Proofs.Json.Printed

/-!
# How deep what is read is nested

Whatever text is read, the containers of its value that hold something are nested so deep at most as the
reading allows. With this it is known exactly which written values are read back.

## Main definitions

* `Reading.Fits`: what has been read so far is nested so deep at most.
* `nesting_of_parseFilled?`: the value of a text is nested so deep at most.
* `parseFilled?_print_eq`: a written value is read back if it is nested so deep at most, and refused if not.
-/

namespace FactIndex.Json

variable {depth : Nat}

/-! ## Tokens -/

theorem nesting_of_unsignedNumber? {negative : Bool} {cs : List Char} {v : Json}
    (h : unsignedNumber? negative cs = some v) (bare : Nat) : v.nesting bare = 0 := by
  unfold unsignedNumber? at h
  obtain ⟨-, h⟩ := Option.ite_none_left_eq_some.mp h
  split at h
  · cases h
    rfl
  · obtain ⟨d, -, rfl⟩ := Option.map_eq_some_iff.mp h
    rfl

/-- A plain word stands for no container. -/
theorem nesting_of_plain? {run : List Char} {v : Json} (h : plain? run = some v) (bare : Nat) :
    v.nesting bare = 0 := by
  unfold plain? at h
  split at h
  · rename_i value hnamed
    cases h
    unfold named? at hnamed
    split at hnamed <;> cases hnamed <;> rfl
  · unfold number? at h
    split at h
    · exact nesting_of_unsignedNumber? h bare
    · exact nesting_of_unsignedNumber? h bare

/-- A token that stands for a value other than a text stands for no container. -/
def Token.IsBare (t : Token) : Prop := ∀ v, t = .plain v → v.nesting 0 = 0

theorem isBare_of_punctuation? {c : Char} {t : Token} (h : punctuation? c = some t) : t.IsBare := by
  rintro v rfl
  unfold punctuation? at h
  split at h <;> cases h

theorem isBare_of_tokens? {cs : List Char} {ts : List Token} (h : tokens? cs = some ts) :
    ∀ t ∈ ts, t.IsBare := by
  fun_induction tokens? cs generalizing ts with
  | case1 =>
      cases h
      exact fun _ ht => nomatch ht
  | case2 c rest _ ih => exact ih h
  | case3 c rest _ _ hspan => cases h
  | case4 c rest _ _ body after hspan _ ih =>
      simp only [Option.bind_eq_bind, Option.bind_eq_some_iff, pure] at h
      obtain ⟨value, -, more, hmore, h⟩ := h
      cases h
      refine List.forall_mem_cons.mpr ⟨?_, ih hmore⟩
      rintro v ⟨⟩
  | case5 c rest _ _ token htoken ih =>
      obtain ⟨more, hmore, rfl⟩ := Option.map_eq_some_iff.mp h
      exact List.forall_mem_cons.mpr ⟨isBare_of_punctuation? htoken, ih hmore⟩
  | case6 c rest _ _ _ _ _ ih =>
      simp only [Option.bind_eq_bind, Option.bind_eq_some_iff, pure] at h
      obtain ⟨value, hvalue, more, hmore, h⟩ := h
      cases h
      refine List.forall_mem_cons.mpr ⟨?_, ih hmore⟩
      rintro v ⟨⟩
      exact nesting_of_plain? hvalue 0
  | case7 c rest _ _ _ _ => cases h

/-! ## The reading machine -/

/-- What a container that is still open holds so far. -/
def Frame.values : Frame → List Json
  | .array done => done
  | .object done _ => done.map (·.2)

/-- The containers that are still open hold only what there is room for. -/
def FramesFit (depth : Nat) : List Frame → Prop
  | [] => True
  | f :: outer => (∀ v ∈ f.values, v.nesting 0 + (outer.length + 1) ≤ depth) ∧ FramesFit depth outer

/-- What has been read so far is nested so deep at most, apart from containers that hold nothing. -/
structure Reading.Fits (depth : Nat) (r : Reading) : Prop where
  length_le : r.frames.length ≤ depth + 1
  frames : FramesFit depth r.frames
  result : ∀ v ∈ r.result, v.nesting 0 ≤ depth

/-- Where nothing is handed over, only the containers that are still open matter. -/
theorem Reading.fits_of_frames {frames : List Frame} {expected : Expected}
    (hlength : frames.length ≤ depth + 1) (hframes : FramesFit depth frames) :
    Reading.Fits depth ⟨frames, expected, none⟩ :=
  ⟨hlength, hframes, by simp⟩

/-- A value for which there is room is handed over. -/
theorem Reading.fits_deliver {frames : List Frame} {v : Json} (hlength : frames.length ≤ depth + 1)
    (hframes : FramesFit depth frames) (hv : v.nesting 0 + frames.length ≤ depth) :
    (Reading.deliver frames v).Fits depth := by
  match frames with
  | [] =>
      refine ⟨Nat.zero_le _, trivial, ?_⟩
      rintro _ ⟨⟩
      exact hv
  | .array done :: outer =>
      exact fits_of_frames hlength ⟨List.forall_mem_cons.mpr ⟨hv, hframes.1⟩, hframes.2⟩
  | .object done key :: outer =>
      refine fits_of_frames hlength ⟨fun x hx => ?_, hframes.2⟩
      obtain ⟨entry, hentry, rfl⟩ := List.mem_map.mp hx
      rcases Table.mem_of_mem_put hentry with rfl | hold
      · exact hv
      · exact hframes.1 _ (List.mem_map_of_mem hold)

/-- An array fits where each of its elements fits one level deeper. -/
theorem nesting_arr_add_le {xs : List Json} {k : Nat} (hk : k ≤ depth)
    (h : ∀ x ∈ xs, x.nesting 0 + (k + 1) ≤ depth) : (Json.arr xs).nesting 0 + k ≤ depth := by
  rw [nesting]
  cases xs with
  | nil => simpa using hk
  | cons x xs =>
      have hroom : k + 1 ≤ depth := le_trans (Nat.le_add_left _ _) (h x List.mem_cons_self)
      have hall : nestingEach 0 (x :: xs) ≤ depth - (k + 1) :=
        nestingEach_le_iff.mpr fun y hy => Nat.le_sub_of_add_le (h y hy)
      rw [List.isEmpty_cons, if_neg Bool.false_ne_true]
      omega

theorem nesting_obj_add_le {ms : Members} {k : Nat} (hk : k ≤ depth)
    (h : ∀ m ∈ ms, m.2.nesting 0 + (k + 1) ≤ depth) : (Json.obj ms).nesting 0 + k ≤ depth := by
  rw [nesting]
  cases ms with
  | nil => simpa using hk
  | cons m ms =>
      have hroom : k + 1 ≤ depth := le_trans (Nat.le_add_left _ _) (h m List.mem_cons_self)
      have hall : nestingMembers 0 (m :: ms) ≤ depth - (k + 1) :=
        nestingMembers_le_iff.mpr fun m' hm' => Nat.le_sub_of_add_le (h m' hm')
      rw [List.isEmpty_cons, if_neg Bool.false_ne_true]
      omega

/-- One token, by cases on the token: what is read stays nested so deep at most. -/
theorem Reading.Fits.stepFilled {r s : Reading} {t : Token} (hr : r.Fits depth) (ht : t.IsBare)
    (h : Reading.stepFilled depth r t = some s) : s.Fits depth := by
  obtain ⟨hlength, hframes, hresult⟩ := hr
  cases t with
  | openObject =>
      obtain ⟨hroom, h⟩ := Option.ite_none_right_eq_some.mp h
      cases h
      simp only [Bool.and_eq_true, decide_eq_true_eq] at hroom
      exact fits_of_frames hroom.2 ⟨List.forall_mem_nil _, hframes⟩
  | openArray =>
      obtain ⟨hroom, h⟩ := Option.ite_none_right_eq_some.mp h
      cases h
      simp only [Bool.and_eq_true, decide_eq_true_eq] at hroom
      exact fits_of_frames hroom.2 ⟨List.forall_mem_nil _, hframes⟩
  | closeObject =>
      have h : Reading.step (depth + 1) r .closeObject = some s := h
      rw [Reading.step] at h
      split at h
      · rename_i done key outer heq
        obtain ⟨-, h⟩ := Option.ite_none_right_eq_some.mp h
        cases h
        rw [heq] at hlength hframes
        have houter : outer.length ≤ depth := Nat.le_of_succ_le_succ hlength
        refine fits_deliver (Nat.le_succ_of_le houter) hframes.2 (nesting_obj_add_le houter fun m hm => ?_)
        exact hframes.1 m.2 (List.mem_map_of_mem hm)
      · cases h
  | closeArray =>
      have h : Reading.step (depth + 1) r .closeArray = some s := h
      rw [Reading.step] at h
      split at h
      · rename_i done outer heq
        obtain ⟨-, h⟩ := Option.ite_none_right_eq_some.mp h
        cases h
        rw [heq] at hlength hframes
        have houter : outer.length ≤ depth := Nat.le_of_succ_le_succ hlength
        refine fits_deliver (Nat.le_succ_of_le houter) hframes.2 (nesting_arr_add_le houter fun x hx => ?_)
        exact hframes.1 x (List.mem_reverse.mp hx)
      · cases h
  | colon =>
      obtain ⟨-, h⟩ := Option.ite_none_right_eq_some.mp h
      cases h
      exact ⟨hlength, hframes, hresult⟩
  | comma =>
      have h : Reading.step (depth + 1) r .comma = some s := h
      rw [Reading.step] at h
      split at h
      · obtain ⟨-, h⟩ := Option.ite_none_right_eq_some.mp h
        cases h
        exact ⟨hlength, hframes, hresult⟩
      · obtain ⟨-, h⟩ := Option.ite_none_right_eq_some.mp h
        cases h
        exact ⟨hlength, hframes, hresult⟩
      · cases h
  | text value =>
      obtain ⟨hroom, h⟩ := Option.ite_none_right_eq_some.mp h
      rw [Reading.step] at h
      split at h
      · cases h
        exact fits_deliver hlength hframes (by simpa [nesting] using hroom)
      · split at h
        · rename_i done key outer heq
          obtain ⟨-, h⟩ := Option.ite_none_right_eq_some.mp h
          cases h
          rw [heq] at hlength hframes
          exact fits_of_frames hlength hframes
        · cases h
  | plain value =>
      obtain ⟨hroom, h⟩ := Option.ite_none_right_eq_some.mp h
      obtain ⟨-, h⟩ := Option.ite_none_right_eq_some.mp h
      cases h
      exact fits_deliver hlength hframes (by simpa [ht value rfl] using hroom)

theorem Reading.Fits.foldlM {ts : List Token} {r s : Reading} (hr : r.Fits depth)
    (hts : ∀ t ∈ ts, t.IsBare) (h : ts.foldlM (Reading.stepFilled depth) r = some s) : s.Fits depth := by
  induction ts generalizing r with
  | nil =>
      cases h
      exact hr
  | cons t ts ih =>
      rw [List.foldlM_cons] at h
      obtain ⟨r', hstep, h⟩ := Option.bind_eq_some_iff.mp h
      obtain ⟨ht, hts⟩ := List.forall_mem_cons.mp hts
      exact ih (hr.stepFilled ht hstep) hts h

/-- Whatever text is read: the containers of its value that hold something are nested so deep at most. -/
theorem nesting_of_parseFilled? {text : String} {v : Json} (h : parseFilled? depth text = some v) :
    v.nesting 0 ≤ depth := by
  obtain ⟨ts, htokens, h⟩ := Option.bind_eq_some_iff.mp h
  obtain ⟨r, hrun, hresult⟩ := Option.bind_eq_some_iff.mp h
  have hstart : Reading.start.Fits depth := Reading.fits_of_frames (Nat.zero_le _) trivial
  exact (hstart.foldlM (isBare_of_tokens? htokens) hrun).result v hresult

/-! ## More room -/

/-- A container that is opened had room. -/
theorem length_lt_of_step {r s : Reading} {t : Token} (ht : t.isOpening = true)
    (h : Reading.step depth r t = some s) : r.frames.length < depth := by
  cases t with
  | openObject =>
      have hroom := (Option.ite_none_right_eq_some.mp h).1
      simp only [Bool.and_eq_true, decide_eq_true_eq] at hroom
      exact hroom.2
  | openArray =>
      have hroom := (Option.ite_none_right_eq_some.mp h).1
      simp only [Bool.and_eq_true, decide_eq_true_eq] at hroom
      exact hroom.2
  | _ => cases ht

variable {depth' : Nat}

/-- With more room nothing is read in another way. -/
theorem step_mono (hle : depth ≤ depth') {r s : Reading} {t : Token}
    (h : Reading.step depth r t = some s) : Reading.step depth' r t = some s := by
  rw [← h]
  exact step_eq_step (fun ht => (length_lt_of_step ht h).trans_le hle) fun ht => length_lt_of_step ht h

theorem step_of_stepFilled (hlt : depth < depth') {r s : Reading} {t : Token}
    (h : Reading.stepFilled depth r t = some s) : Reading.step depth' r t = some s := by
  cases t with
  | text value => exact step_mono hlt.le (Option.ite_none_right_eq_some.mp h).2
  | plain value => exact step_mono hlt.le (Option.ite_none_right_eq_some.mp h).2
  | _ => exact step_mono hlt h

theorem parse?_of_parseFilled? (hlt : depth < depth') {text : String} {v : Json}
    (h : parseFilled? depth text = some v) : parse? depth' text = some v := by
  have hrun : ∀ (ts : List Token) (r s : Reading), ts.foldlM (Reading.stepFilled depth) r = some s →
      ts.foldlM (Reading.step depth') r = some s := by
    intro ts
    induction ts with
    | nil => exact fun _ _ h => h
    | cons t ts ih =>
        intro r s h
        rw [List.foldlM_cons] at h ⊢
        obtain ⟨r', hstep, h⟩ := Option.bind_eq_some_iff.mp h
        exact Option.bind_eq_some_iff.mpr ⟨r', step_of_stepFilled hlt hstep, ih r' s h⟩
  obtain ⟨ts, htokens, h⟩ := Option.bind_eq_some_iff.mp h
  obtain ⟨r, hr, hresult⟩ := Option.bind_eq_some_iff.mp h
  exact Option.bind_eq_some_iff.mpr ⟨ts, htokens, Option.bind_eq_some_iff.mpr ⟨r, hrun ts _ r hr, hresult⟩⟩

/-- A written value is read back if the containers in it that hold something are nested so deep at most.
Otherwise nothing is read. -/
theorem parseFilled?_print_eq {style : Style} (hstyle : style.IsPlain) {n : Nat} {v : Json}
    (h : IsReadable style n v) :
    parseFilled? depth (style.print v) = if v.nesting 0 ≤ depth then some v else none := by
  split
  · rename_i hroom
    exact parseFilled?_print hstyle h hroom
  · rename_i hdeep
    cases hread : parseFilled? depth (style.print v) with
    | none => rfl
    | some u =>
        -- with room for the whole value it is the value that is read, but then it would have fit
        have hwhole := parse?_of_parseFilled? (Nat.lt_succ_of_le (Nat.le_max_left depth n)) hread
        have hmono : IsReadable style (max depth n + 1) v := h.mono (by omega)
        rw [parse?_print hstyle hmono] at hwhole
        cases hwhole
        exact absurd (nesting_of_parseFilled? hread) hdeep

end FactIndex.Json
