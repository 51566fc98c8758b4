import FactIndex.Json.Reader
import FactIndex.Proofs.Json.Tokens

/-!
# Written values

What is written of a value is read back: the tokens of the text take the reading machine from where a
value is expected to where it has been handed over. The keys of its objects have to be distinct, and
reading must give back its floats.

## Main definitions

* `ReadsFloat`: a float is read back from its text.
* `Style.IsPlain`: a form in which members keep their order.
* `IsReadable`: a value whose keys are distinct and whose floats are read back.
* `Container`: arrays and objects, as the reading machine goes through them.
* `parse?_print`: such a value is read back.
-/

namespace FactIndex.Json

open FactIndex.Decimal

/-! ## Floats -/

/-- The names of a layout are plain words. -/
def HasPlainNames (layout : Layout) : Prop :=
  ∀ name ∈ [layout.undefinedText, layout.infinityText, layout.negativeInfinityText],
    name.toList ≠ [] ∧ name.toList.all isPlainChar = true

/-- Reading the text of a float gives back the float. -/
def ReadsFloat (layout : Layout) (x : Float) : Prop :=
  plain? (layout.write x).toList = some (.float x)

theorem all_isPlainChar_of_isDigit {digits : List Char} (h : ∀ c ∈ digits, c.isDigit = true) :
    digits.all isPlainChar = true := by
  rw [List.all_eq_true]
  intro c hc
  simp [isPlainChar, isNumberChar, h c hc]

theorem all_isPlainChar_replicate (n : Nat) : (List.replicate n '0').all isPlainChar = true := by
  rw [List.all_eq_true]
  intro c hc
  rw [List.eq_of_mem_replicate hc]
  decide

theorem all_isPlainChar_positional {digits : List Char} (h : digits.all isPlainChar = true)
    (lead : Int) : (positional digits lead).all isPlainChar = true := by
  have hfront : ['0', '.'].all isPlainChar = true := by decide
  have hback : ['.', '0'].all isPlainChar = true := by decide
  have hpoint : ['.'].all isPlainChar = true := by decide
  unfold positional
  split
  · rw [List.all_append, List.all_append, hfront, all_isPlainChar_replicate, h]
    rfl
  · dsimp only
    split
    · rw [List.all_append, List.all_append, hback, all_isPlainChar_replicate, h]
      rfl
    · have hparts : (digits.take (lead.toNat + 1)).all isPlainChar = true ∧
          (digits.drop (lead.toNat + 1)).all isPlainChar = true := by
        rwa [← Bool.and_eq_true, ← List.all_append, List.take_append_drop]
      rw [List.all_append, List.all_append, hpoint, hparts.1, hparts.2]
      rfl

theorem all_isPlainChar_scientific (width : Nat) {digits : List Char}
    (h : digits.all isPlainChar = true) (lead : Int) :
    (scientific width digits lead).all isPlainChar = true := by
  have hsign : ['e', if lead < 0 then '-' else '+'].all isPlainChar = true := by
    split
    · decide
    · decide
  have hpower : (digitsOf lead.natAbs).all isPlainChar = true :=
    all_isPlainChar_of_isDigit fun _ => isDigit_of_mem
  unfold scientific
  dsimp only
  rw [List.all_append, List.all_append, List.all_append, hsign, all_isPlainChar_replicate, hpower,
    Bool.and_true, Bool.and_true, Bool.and_true]
  split
  · rename_i first second rest
    have hpoint : isPlainChar '.' = true := by decide
    simp only [List.all_cons, Bool.and_eq_true] at h
    simp [h, hpoint]
  · exact h

theorem positional_ne_nil (digits : List Char) (lead : Int) : positional digits lead ≠ [] := by
  unfold positional
  split
  · simp
  · dsimp only
    split <;> simp

theorem scientific_ne_nil (width : Nat) (digits : List Char) (lead : Int) :
    scientific width digits lead ≠ [] := by
  unfold scientific
  simp

/-- A float is written as a plain word. -/
theorem isCut_float {layout : Layout} {x : Float} (hnames : HasPlainNames layout)
    (h : ReadsFloat layout x) : IsCut (layout.write x).toList [.plain (.float x)] := by
  have hplain : (layout.write x).toList ≠ [] ∧ (layout.write x).toList.all isPlainChar = true := by
    unfold Layout.write
    split
    · split
      · exact hnames _ (by simp)
      · split
        · exact hnames _ (by simp)
        · exact hnames _ (by simp)
    · rename_i b _
      have hdigits : (digitsOf (shortest b.significand b.exponent).significand).all isPlainChar =
          true := all_isPlainChar_of_isDigit fun _ => isDigit_of_mem
      have hsigned : ∀ body : List Char, body ≠ [] → body.all isPlainChar = true →
          (if b.negative then '-' :: body else body) ≠ [] ∧
            (if b.negative then '-' :: body else body).all isPlainChar = true := by
        intro body hne hall
        split
        · exact ⟨List.cons_ne_nil _ _, by rw [List.all_cons, hall]; rfl⟩
        · exact ⟨hne, hall⟩
      dsimp only
      rw [String.toList_ofList]
      refine hsigned _ ?_ ?_
      · split
        · exact positional_ne_nil _ _
        · exact scientific_ne_nil _ _ _
      · split
        · exact all_isPlainChar_positional hdigits _
        · exact all_isPlainChar_scientific _ hdigits _
  exact isCut_plain hplain.1 hplain.2 h

/-! ## Values that are read back -/

/-- A form in which members keep their order, and in which nothing but blanks stands beside the commas and
colons. -/
structure Style.IsPlain (style : Style) : Prop where
  between : ∃ n, style.between.toList = ',' :: List.replicate n ' '
  afterKey : ∃ n, style.afterKey.toList = ':' :: List.replicate n ' '
  isUnsorted : style.sorted = false
  names : HasPlainNames style.floats

theorem Style.isPlain_stored : Style.stored.IsPlain where
  between := ⟨1, rfl⟩
  afterKey := ⟨1, rfl⟩
  isUnsorted := rfl
  names := by
    intro name hname
    simp only [List.mem_cons, List.not_mem_nil, or_false] at hname
    rcases hname with rfl | rfl | rfl
    · exact ⟨by decide, by decide⟩
    · exact ⟨by decide, by decide⟩
    · exact ⟨by decide, by decide⟩

/-- Values that are nested so deep at most, whose objects have distinct keys and whose floats are read
back. -/
inductive IsReadable (style : Style) : Nat → Json → Prop
  | null {depth : Nat} : IsReadable style depth .null
  | bool {depth : Nat} (b : Bool) : IsReadable style depth (.bool b)
  | int {depth : Nat} (n : Int) : IsReadable style depth (.int n)
  | float {depth : Nat} {x : Float} (h : ReadsFloat style.floats x) : IsReadable style depth (.float x)
  | str {depth : Nat} (s : String) : IsReadable style depth (.str s)
  | arr {depth : Nat} {xs : List Json} (h : ∀ x ∈ xs, IsReadable style depth x) :
      IsReadable style (depth + 1) (.arr xs)
  | obj {depth : Nat} {ms : Members} (hkeys : ms.keys.Nodup)
      (h : ∀ m ∈ ms, IsReadable style depth m.2) : IsReadable style (depth + 1) (.obj ms)

theorem IsReadable.mono {style : Style} {n m : Nat} {v : Json} (h : IsReadable style n v)
    (hle : n ≤ m) : IsReadable style m v := by
  induction h generalizing m with
  | null => exact .null
  | bool b => exact .bool b
  | int n => exact .int n
  | float h => exact .float h
  | str s => exact .str s
  | arr _ ih =>
      obtain ⟨m, rfl⟩ := Nat.exists_eq_add_one_of_ne_zero (Nat.ne_zero_of_lt hle)
      exact .arr fun x hx => ih x hx (Nat.le_of_succ_le_succ hle)
  | obj hkeys _ ih =>
      obtain ⟨m, rfl⟩ := Nat.exists_eq_add_one_of_ne_zero (Nat.ne_zero_of_lt hle)
      exact .obj hkeys fun x hx => ih x hx (Nat.le_of_succ_le_succ hle)

/-! ## The reading machine -/

/-- Whether a token opens a container. -/
def Token.isOpening : Token → Bool
  | .openObject | .openArray => true
  | _ => false

/-- The tokens take a machine from one state to another. -/
def Runs (f : Reading → Token → Option Reading) (ts : List Token) (r s : Reading) : Prop :=
  ts.foldlM f r = some s

/-- A machine that reads like the reading machine as long as containers are nested at most so deep. It has
room for containers that hold nothing where there is so much room. -/
structure Reads (f : Reading → Token → Option Reading) (depth bare : Nat) : Prop where
  step_eq : ∀ r t, r.frames.length ≤ depth → (t.isOpening = true → r.frames.length < depth) →
    f r t = Reading.step depth r t
  array : ∀ r, Reading.takesValue r.expected = true → r.frames.length + bare ≤ depth →
    Runs f [.openArray, .closeArray] r (Reading.deliver r.frames (.arr []))
  object : ∀ r, Reading.takesValue r.expected = true → r.frames.length + bare ≤ depth →
    Runs f [.openObject, .closeObject] r (Reading.deliver r.frames (.obj []))

variable {f : Reading → Token → Option Reading} {depth bare room : Nat} {style : Style}

theorem Runs.append {ts us : List Token} {r s t : Reading} (h : Runs f ts r s)
    (h' : Runs f us s t) : Runs f (ts ++ us) r t := by
  unfold Runs at *
  rw [List.foldlM_append, h]
  exact h'

/-- A token that opens nothing. -/
theorem Reads.runs (hf : Reads f depth bare) {r s : Reading} {t : Token} (hroom : r.frames.length ≤ depth)
    (ht : t.isOpening = false) (h : Reading.step depth r t = some s) : Runs f [t] r s := by
  unfold Runs
  rw [List.foldlM_cons, hf.step_eq r t hroom (by simp [ht]), h]
  rfl

/-- A token that opens a container. -/
theorem Reads.runs_opening (hf : Reads f depth bare) {r s : Reading} {t : Token}
    (hroom : r.frames.length < depth) (h : Reading.step depth r t = some s) : Runs f [t] r s := by
  unfold Runs
  rw [List.foldlM_cons, hf.step_eq r t hroom.le fun _ => hroom, h]
  rfl

/-- The tokens hand over the value wherever one is expected and there is room for it. -/
def Gives (f : Reading → Token → Option Reading) (depth room : Nat) (ts : List Token) (v : Json) : Prop :=
  ∀ r, Reading.takesValue r.expected = true → r.frames.length + room ≤ depth →
    Runs f ts r (Reading.deliver r.frames v)

theorem Gives.mono {room' : Nat} {ts : List Token} {v : Json} (h : Gives f depth room ts v)
    (hroom : room ≤ room') : Gives f depth room' ts v :=
  fun r hr hfits => h r hr (by omega)

/-- Containers, which are read part by part. A part comes first or after a comma. -/
structure Container (α S : Type) where
  opening : String
  closing : String
  openToken : Token
  closeToken : Token
  frame : S → Frame
  empty : S
  add : S → α → S
  value : S → Json
  first : Expected
  later : Expected
  opens : ∃ mark, opening.toList = [mark] ∧ punctuation? mark = some openToken
  closes : ∃ mark, closing.toList = [mark] ∧ punctuation? mark = some closeToken
  ends : closeToken.isOpening = false
  enter : ∀ depth r, Reading.takesValue r.expected = true → r.frames.length < depth →
    Reading.step depth r openToken = some ⟨frame empty :: r.frames, first, none⟩
  comma : ∀ depth s outer, Reading.step depth ⟨frame s :: outer, .separator, none⟩ .comma =
    some ⟨frame s :: outer, later, none⟩
  leave : ∀ depth s outer e, e = first ∨ e = .separator →
    Reading.step depth ⟨frame s :: outer, e, none⟩ closeToken = some (Reading.deliver outer (value s))

namespace Container

variable {α S : Type}

/-- The tokens add something to what a container holds. -/
def Takes (c : Container α S) (f : Reading → Token → Option Reading) (depth room : Nat) (ts : List Token)
    (g : S → S) : Prop :=
  ∀ s outer e, e = c.first ∨ e = c.later → outer.length + 1 + room ≤ depth →
    Runs f ts ⟨c.frame s :: outer, e, none⟩ ⟨c.frame (g s) :: outer, .separator, none⟩

/-- Parts with commas between them are added one after the other. -/
theorem exists_takes (c : Container α S) (hf : Reads f depth bare) (hstyle : style.IsPlain)
    {text : α → String} {parts : List α} (hne : parts ≠ [])
    (h : ∀ a ∈ parts, ∃ ts, IsCut (text a).toList ts ∧ c.Takes f depth room ts fun s => c.add s a) :
    ∃ ts, IsCut (style.between.intercalate (parts.map text)).toList ts ∧
      c.Takes f depth room ts fun s => parts.foldl c.add s := by
  obtain ⟨n, hbetween⟩ := hstyle.between
  have hcomma : IsSharplyCut (',' :: List.replicate n ' ') [.comma] :=
    (isSharplyCut_punctuation rfl).append (isSharplyCut_blanks n)
  induction parts with
  | nil => exact absurd rfl hne
  | cons a parts ih =>
      obtain ⟨ts, hcut, htakes⟩ := h a (by simp)
      cases parts with
      | nil =>
          refine ⟨ts, ?_, htakes⟩
          rwa [List.map_singleton, String.intercalate_singleton]
      | cons b parts =>
          obtain ⟨us, hcuts, htake⟩ := ih (by simp) fun a ha => h a (List.mem_cons_of_mem _ ha)
          refine ⟨(ts ++ [.comma]) ++ us, ?_, fun s outer e he hroom => ?_⟩
          · have hfront := hcut.append_isSharplyCut hcomma rfl
            rw [List.map_cons, List.map_cons, String.intercalate_cons_cons, String.toList_append,
              String.toList_append, hbetween]
            exact hfront.append_isCut hcuts
          · have hnext : Runs f [.comma] ⟨c.frame (c.add s a) :: outer, .separator, none⟩
                ⟨c.frame (c.add s a) :: outer, c.later, none⟩ :=
              hf.runs (by simp only [List.length_cons]; omega) rfl (c.comma depth _ outer)
            exact ((htakes s outer e he hroom).append hnext).append (htake _ outer _ (.inr rfl) hroom)

/-- A container is given once its parts have been added to an empty one. -/
theorem exists_gives (c : Container α S) (hf : Reads f depth bare) (hstyle : style.IsPlain)
    (hbare : ∀ r, Reading.takesValue r.expected = true → r.frames.length + bare ≤ depth →
      Runs f [c.openToken, c.closeToken] r (Reading.deliver r.frames (c.value c.empty)))
    {text : α → String} (parts : List α)
    (h : ∀ a ∈ parts, ∃ ts, IsCut (text a).toList ts ∧ c.Takes f depth room ts fun s => c.add s a) :
    ∃ ts, IsCut (bracket c.opening c.closing style.between (parts.map text)).toList ts ∧
      Gives f depth (if parts.isEmpty then bare else room + 1) ts
        (c.value (parts.foldl c.add c.empty)) := by
  obtain ⟨front, hopening, hfront⟩ := c.opens
  obtain ⟨back, hclosing, hback⟩ := c.closes
  have hopen : IsSharplyCut [front] [c.openToken] := isSharplyCut_punctuation hfront
  have hclose : IsSharplyCut [back] [c.closeToken] := isSharplyCut_punctuation hback
  have hend : isPlainChar back = false := by
    cases h : isPlainChar back with
    | false => rfl
    | true =>
        rw [(not_mark_of_isPlainChar h).2.2] at hback
        cases hback
  have htext : (bracket c.opening c.closing style.between (parts.map text)).toList =
      [front] ++ ((style.between.intercalate (parts.map text)).toList ++ [back]) := by
    rw [← hopening, ← hclosing]
    simp [bracket]
  rw [htext]
  cases parts with
  | nil => exact ⟨[c.openToken] ++ [c.closeToken], (hopen.append hclose).isCut, hbare⟩
  | cons a parts =>
      obtain ⟨ts, hcut, htakes⟩ := c.exists_takes hf hstyle (List.cons_ne_nil a parts) h
      refine ⟨[c.openToken] ++ (ts ++ [c.closeToken]),
        (hopen.append (hcut.append_isSharplyCut hclose hend)).isCut, fun r hr hroom => ?_⟩
      have hfits : r.frames.length + (room + 1) ≤ depth := hroom
      have henter := hf.runs_opening (by omega) (c.enter depth r hr (by omega))
      have hleave : Runs f [c.closeToken]
          ⟨c.frame ((a :: parts).foldl c.add c.empty) :: r.frames, .separator, none⟩
          (Reading.deliver r.frames (c.value ((a :: parts).foldl c.add c.empty))) :=
        hf.runs (by simp only [List.length_cons]; omega) c.ends (c.leave depth _ r.frames _ (.inr rfl))
      exact henter.append ((htakes _ r.frames _ (.inl rfl) (by omega)).append hleave)

end Container

/-! ## Arrays and objects -/

/-- Arrays, whose elements are kept last first. -/
def Container.array : Container Json (List Json) where
  opening := "["
  closing := "]"
  openToken := .openArray
  closeToken := .closeArray
  frame := .array
  empty := []
  add done x := x :: done
  value done := .arr done.reverse
  first := .element
  later := .value
  opens := ⟨_, rfl, rfl⟩
  closes := ⟨_, rfl, rfl⟩
  ends := rfl
  enter depth r hr hroom := by
    rw [Reading.step, if_pos (by simp [hr, hroom])]
  comma _ _ _ := rfl
  leave depth s outer e he := by rcases he with rfl | rfl <;> rfl

/-- Objects, with the key that came last. -/
def Container.object : Container (String × Json) (Members × String) where
  opening := "\x7b"
  closing := "\x7d"
  openToken := .openObject
  closeToken := .closeObject
  frame s := .object s.1 s.2
  empty := ([], "")
  add s m := (s.1.put m.1 m.2, m.1)
  value s := .obj s.1
  first := .member
  later := .key
  opens := ⟨_, rfl, rfl⟩
  closes := ⟨_, rfl, rfl⟩
  ends := rfl
  enter depth r hr hroom := by
    rw [Reading.step, if_pos (by simp [hr, hroom])]
  comma _ _ _ := rfl
  leave depth s outer e he := by rcases he with rfl | rfl <;> rfl

theorem takes_element {ts : List Token} {x : Json} (h : Gives f depth room ts x) :
    Container.array.Takes f depth room ts fun s => Container.array.add s x := by
  intro s outer e he hroom
  refine h ⟨.array s :: outer, e, none⟩ ?_ hroom
  rcases he with rfl | rfl <;> rfl

theorem takes_entry (hf : Reads f depth bare) {ts : List Token} {m : String × Json}
    (h : Gives f depth room ts m.2) : Container.object.Takes f depth room
      ([.text m.1] ++ ([.colon] ++ ts)) fun s => Container.object.add s m := by
  intro s outer e he hroom
  have hfits : outer.length + 1 ≤ depth := by omega
  have hkey : Runs f [.text m.1] ⟨.object s.1 s.2 :: outer, e, none⟩
      ⟨.object s.1 m.1 :: outer, .colon, none⟩ := by
    refine hf.runs hfits rfl ?_
    rcases he with rfl | rfl <;> rfl
  have hcolon : Runs f [.colon] ⟨.object s.1 m.1 :: outer, .colon, none⟩
      ⟨.object s.1 m.1 :: outer, .value, none⟩ := hf.runs hfits rfl rfl
  exact hkey.append (hcolon.append (h ⟨.object s.1 m.1 :: outer, .value, none⟩ rfl hroom))

theorem fst_foldl_add (ms : Members) (s : Members × String) :
    (ms.foldl Container.object.add s).1 = s.1.merge ms := by
  induction ms generalizing s with
  | nil => rfl
  | cons m ms ih => exact ih _

/-! ## How deep values are nested -/

mutual

/-- How deep the containers of a value are nested, where one that holds nothing counts for so much. -/
def nesting (bare : Nat) : Json → Nat
  | .arr xs => if xs.isEmpty then bare else nestingEach bare xs + 1
  | .obj ms => if ms.isEmpty then bare else nestingMembers bare ms + 1
  | .null | .bool _ | .int _ | .float _ | .str _ => 0

/-- How deep the containers of the elements of an array are nested. -/
def nestingEach (bare : Nat) : List Json → Nat
  | [] => 0
  | x :: xs => max (nesting bare x) (nestingEach bare xs)

/-- How deep the containers of the members of an object are nested. -/
def nestingMembers (bare : Nat) : List (String × Json) → Nat
  | [] => 0
  | m :: ms => max (nesting bare m.2) (nestingMembers bare ms)

end

theorem nestingEach_le_iff {xs : List Json} :
    nestingEach bare xs ≤ depth ↔ ∀ x ∈ xs, nesting bare x ≤ depth := by
  induction xs with
  | nil => simp [nestingEach]
  | cons x xs ih => rw [nestingEach, Nat.max_le, ih, List.forall_mem_cons]

theorem nestingMembers_le_iff {ms : List (String × Json)} :
    nestingMembers bare ms ≤ depth ↔ ∀ m ∈ ms, nesting bare m.2 ≤ depth := by
  induction ms with
  | nil => simp [nestingMembers]
  | cons m ms ih => rw [nestingMembers, Nat.max_le, ih, List.forall_mem_cons]

/-- What is nested so deep at most, where containers that hold nothing count like others. -/
theorem IsReadable.nesting_le {v : Json} (h : IsReadable style depth v) : v.nesting 1 ≤ depth := by
  induction h with
  | null | bool _ | int _ | float _ | str _ => simp [nesting]
  | arr _ ih =>
      rw [nesting]
      have := nestingEach_le_iff.mpr ih
      split <;> omega
  | obj _ _ ih =>
      rw [nesting]
      have := nestingMembers_le_iff.mpr ih
      split <;> omega

/-! ## Written values -/

theorem printList_eq (xs : List Json) : style.printList xs = xs.map style.print := by
  induction xs with
  | nil => rfl
  | cons x xs ih => rw [Style.printList, ih, List.map_cons]

theorem printMembers_eq (ms : Members) :
    style.printMembers ms = ms.map fun m => (m.1, style.print m.2) := by
  induction ms with
  | nil => rfl
  | cons m ms ih => rw [Style.printMembers, ih, List.map_cons]

theorem Reads.gives_text (hf : Reads f depth bare) (s : String) : Gives f depth 0 [.text s] (.str s) := by
  intro r hr hroom
  refine hf.runs (by simpa using hroom) rfl ?_
  rw [Reading.step, if_pos hr]

theorem Reads.gives_plain (hf : Reads f depth bare) (v : Json) : Gives f depth 0 [.plain v] v := by
  intro r hr hroom
  refine hf.runs (by simpa using hroom) rfl ?_
  rw [Reading.step, if_pos hr]

theorem Reads.exists_gives_word (hf : Reads f depth bare) (word : String) {v : Json}
    (hne : word.toList ≠ []) (hplain : word.toList.all isPlainChar = true)
    (h : plain? word.toList = some v) : ∃ ts, IsCut word.toList ts ∧ Gives f depth 0 ts v :=
  ⟨_, isCut_plain hne hplain h, hf.gives_plain v⟩

theorem isCut_entry (hstyle : style.IsPlain) (key : String) {text : String} {ts : List Token}
    (h : IsCut text.toList ts) :
    IsCut (quote style.asciiOnly key ++ style.afterKey ++ text).toList
      ([.text key] ++ ([.colon] ++ ts)) := by
  obtain ⟨n, hafter⟩ := hstyle.afterKey
  have hcolon : IsSharplyCut (':' :: List.replicate n ' ') [.colon] :=
    (isSharplyCut_punctuation rfl).append (isSharplyCut_blanks n)
  rw [String.toList_append, String.toList_append, List.append_assoc, hafter]
  exact (isSharplyCut_quote _ key).append_isCut (hcolon.append_isCut h)

/-- By induction on the value: what is written of it gives it. -/
theorem Reads.exists_gives_print (hf : Reads f depth bare) (hstyle : style.IsPlain) {n : Nat} {v : Json}
    (h : IsReadable style n v) :
    ∃ ts, IsCut (style.print v).toList ts ∧ Gives f depth (v.nesting bare) ts v := by
  induction h with
  | null => exact hf.exists_gives_word "null" (by decide) (by decide) rfl
  | bool b =>
      cases b with
      | false => exact hf.exists_gives_word "false" (by decide) (by decide) rfl
      | true => exact hf.exists_gives_word "true" (by decide) (by decide) rfl
  | int n => exact ⟨_, isCut_int n, hf.gives_plain _⟩
  | float h => exact ⟨_, isCut_float hstyle.names h, hf.gives_plain _⟩
  | str s => exact ⟨_, (isSharplyCut_quote _ s).isCut, hf.gives_text s⟩
  | @arr n xs h ih =>
      have hle := nestingEach_le_iff.mp (le_refl (nestingEach bare xs))
      obtain ⟨ts, hcut, hgives⟩ := Container.array.exists_gives hf hstyle hf.array xs fun x hx => by
        obtain ⟨ts, hcut, hgives⟩ := ih x hx
        exact ⟨ts, hcut, takes_element (hgives.mono (hle x hx))⟩
      have hall : (xs.foldl Container.array.add Container.array.empty).reverse = xs := by
        have hreverse : xs.foldl Container.array.add Container.array.empty = xs.reverse ++ [] :=
          List.foldl_flip_cons_eq_append'
        rw [hreverse, List.append_nil, List.reverse_reverse]
      refine ⟨ts, ?_, ?_⟩
      · rwa [Style.print, printList_eq]
      · have hvalue : Container.array.value (xs.foldl Container.array.add Container.array.empty) = .arr xs :=
          congrArg Json.arr hall
        rw [hvalue] at hgives
        rwa [nesting]
  | @obj n ms hkeys h ih =>
      have hle := nestingMembers_le_iff.mp (le_refl (nestingMembers bare ms))
      obtain ⟨ts, hcut, hgives⟩ := Container.object.exists_gives hf hstyle hf.object ms fun m hm => by
        obtain ⟨ts, hcut, hgives⟩ := ih m hm
        exact ⟨_, isCut_entry hstyle m.1 hcut, takes_entry hf (hgives.mono (hle m hm))⟩
      have hall : (ms.foldl Container.object.add Container.object.empty).1 = ms := by
        rw [fst_foldl_add]
        exact Table.merge_of_nodup (t := []) hkeys
      refine ⟨ts, ?_, ?_⟩
      · rw [Style.print, printMembers_eq]
        rwa [hstyle.isUnsorted, if_neg Bool.false_ne_true, List.map_map]
      · have hvalue : Container.object.value (ms.foldl Container.object.add Container.object.empty) = .obj ms :=
          congrArg Json.obj hall
        rw [hvalue] at hgives
        rwa [nesting]

/-- A machine that has room for a value reads it from its text. -/
theorem Reads.foldlM_print (hf : Reads f depth bare) (hstyle : style.IsPlain) {n : Nat} {v : Json}
    (h : IsReadable style n v) (hroom : v.nesting bare ≤ depth) :
    ∃ ts, tokens? (style.print v).toList = some ts ∧
      ts.foldlM f Reading.start = some (Reading.deliver [] v) := by
  obtain ⟨ts, hcut, hgives⟩ := hf.exists_gives_print hstyle h
  refine ⟨ts, ?_, hgives Reading.start rfl (by simpa [Reading.start] using hroom)⟩
  have hend := hcut [] nofun
  rw [List.append_nil, tokens?] at hend
  rw [hend, Option.map_some, List.append_nil]

/-! ## The two machines -/

/-- An array is opened where a value is expected and there is room for it. -/
theorem step_openArray {r : Reading} (hr : Reading.takesValue r.expected = true)
    (hroom : r.frames.length < depth) :
    Reading.step depth r .openArray = some ⟨.array [] :: r.frames, .element, none⟩ :=
  Container.array.enter depth r hr hroom

theorem step_openObject {r : Reading} (hr : Reading.takesValue r.expected = true)
    (hroom : r.frames.length < depth) :
    Reading.step depth r .openObject = some ⟨.object [] "" :: r.frames, .member, none⟩ :=
  Container.object.enter depth r hr hroom

theorem reads_step (depth : Nat) : Reads (Reading.step depth) depth 1 where
  step_eq _ _ _ _ := rfl
  array r hr hroom := by
    unfold Runs
    rw [List.foldlM_cons, step_openArray hr hroom]
    rfl
  object r hr hroom := by
    unfold Runs
    rw [List.foldlM_cons, step_openObject hr hroom]
    rfl

/-- Only tokens that open a container look at how deep it is nested. -/
theorem step_of_not_isOpening {t : Token} (ht : t.isOpening = false) (r : Reading) (depth depth' : Nat) :
    Reading.step depth r t = Reading.step depth' r t := by
  cases t <;> first | rfl | cases ht

/-- As long as there is room, the depth makes no difference. -/
theorem step_eq_step {r : Reading} {t : Token} {depth depth' : Nat}
    (h : t.isOpening = true → r.frames.length < depth) (h' : t.isOpening = true → r.frames.length < depth') :
    Reading.step depth r t = Reading.step depth' r t := by
  cases ht : t.isOpening with
  | false => exact step_of_not_isOpening ht r depth depth'
  | true =>
      have hroom := h ht
      have hroom' := h' ht
      cases t with
      | openObject => simp [Reading.step, hroom, hroom']
      | openArray => simp [Reading.step, hroom, hroom']
      | _ => cases ht

theorem reads_stepFilled (depth : Nat) : Reads (Reading.stepFilled depth) depth 0 where
  step_eq r t hroom hopening := by
    have hsame : Reading.step (depth + 1) r t = Reading.step depth r t :=
      step_eq_step (fun h => Nat.lt_succ_of_lt (hopening h)) hopening
    cases t with
    | text value => rw [Reading.stepFilled, if_pos hroom]
    | plain value => rw [Reading.stepFilled, if_pos hroom]
    | _ => exact hsame
  array r hr hroom := by
    unfold Runs
    have hopen : Reading.stepFilled depth r .openArray = some ⟨.array [] :: r.frames, .element, none⟩ :=
      step_openArray hr (Nat.lt_succ_of_le hroom)
    rw [List.foldlM_cons, hopen]
    rfl
  object r hr hroom := by
    unfold Runs
    have hopen : Reading.stepFilled depth r .openObject = some ⟨.object [] "" :: r.frames, .member, none⟩ :=
      step_openObject hr (Nat.lt_succ_of_le hroom)
    rw [List.foldlM_cons, hopen]
    rfl

/-- What is written of a value is read back. -/
theorem parse?_print (hstyle : style.IsPlain) {v : Json} (h : IsReadable style depth v) :
    parse? depth (style.print v) = some v := by
  obtain ⟨ts, htokens, hrun⟩ := (reads_step depth).foldlM_print hstyle h h.nesting_le
  unfold parse?
  rw [htokens]
  show (ts.foldlM (Reading.step depth) Reading.start).bind Reading.result = _
  rw [hrun]
  rfl

/-- So it is where containers that hold nothing do not count. -/
theorem parseFilled?_print (hstyle : style.IsPlain) {n : Nat} {v : Json} (h : IsReadable style n v)
    (hroom : v.nesting 0 ≤ depth) : parseFilled? depth (style.print v) = some v := by
  obtain ⟨ts, htokens, hrun⟩ := (reads_stepFilled depth).foldlM_print hstyle h hroom
  unfold parseFilled?
  rw [htokens]
  show (ts.foldlM (Reading.stepFilled depth) Reading.start).bind Reading.result = _
  rw [hrun]
  rfl

end FactIndex.Json
