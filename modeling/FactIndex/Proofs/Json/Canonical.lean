import FactIndex.Digest.Structural
import FactIndex.Proofs.Json.Floats

/-!
# Canonical texts

The canonical text of a value has the members of each object in the order of their keys and is otherwise
as good as the value: it is the text of the value with its members in order, and that is read back. So two
values have the same canonical text just if they differ in nothing but the order of members.

## Main definitions

* `Json.Alike`: values that are the same up to the order of members, at every level.
* `Json.HasDistinctKeys`: no key comes twice in an object.
* `Json.ordered`: a value with its members in order.
* `Json.structuralText_eq_iff`: values with the same canonical text.
-/

namespace FactIndex

open FactIndex.Digest

/-! ## Tables in order -/

namespace Table

variable {α : Type} {t u : Table String α}

/-- The entries in increasing order of the keys. -/
def inOrder (t : Table String α) : Table String α := t.mergeSort fun a b => decide (a.1 ≤ b.1)

theorem perm_inOrder (t : Table String α) : t.inOrder.Perm t := List.mergeSort_perm _ _

theorem pairwise_inOrder (t : Table String α) : t.inOrder.Pairwise fun a b => a.1 ≤ b.1 := by
  have hsorted : t.inOrder.Pairwise fun a b => decide (a.1 ≤ b.1) = true := List.pairwise_mergeSort
    (fun a b c hab hbc => by simpa using String.le_trans (by simpa using hab) (by simpa using hbc))
    (fun a b => by simpa using String.le_total a.1 b.1) t
  simpa using hsorted

theorem inOrder_map {β : Type} (f : α → β) (t : Table String α) :
    inOrder (t.map fun entry => (entry.1, f entry.2)) =
      t.inOrder.map fun entry => (entry.1, f entry.2) := by
  refine Eq.symm (List.map_mergeSort ?_)
  intro _ _ _ _
  rfl

theorem nodup_of_nodup_keys (h : t.keys.Nodup) : t.Nodup := h.of_map _

/-- Tables have the same entries if they have the same value under every key. -/
theorem perm_iff_get? (ht : t.keys.Nodup) (hu : u.keys.Nodup) :
    t.Perm u ↔ ∀ key, t.get? key = u.get? key := by
  rw [List.perm_ext_iff_of_nodup (nodup_of_nodup_keys ht) (nodup_of_nodup_keys hu)]
  constructor
  · intro h key
    refine Option.ext fun value => ?_
    rw [get?_eq_some_iff ht, get?_eq_some_iff hu, h]
  · rintro h ⟨key, value⟩
    rw [← get?_eq_some_iff ht, ← get?_eq_some_iff hu, h]

/-- In order, the entries of a table are in one order only. -/
theorem inOrder_eq_iff (ht : t.keys.Nodup) (hu : u.keys.Nodup) :
    t.inOrder = u.inOrder ↔ ∀ key, t.get? key = u.get? key := by
  rw [← perm_iff_get? ht hu]
  constructor
  · intro h
    exact (perm_inOrder t).symm.trans (h ▸ perm_inOrder u)
  · intro h
    refine List.Perm.eq_of_pairwise (fun a b ha hb hab hba => ?_) (pairwise_inOrder t) (pairwise_inOrder u)
      ((perm_inOrder t).trans (h.trans (perm_inOrder u).symm))
    have hkey : a.1 = b.1 := String.le_antisymm hab hba
    have hvalue := get?_of_mem hu (h.subset ((perm_inOrder t).subset ha))
    rw [hkey, get?_of_mem hu ((perm_inOrder u).subset hb)] at hvalue
    exact Prod.ext hkey (Option.some.inj hvalue).symm

end Table

/-! ## Values up to the order of members -/

namespace Json

/-- Values that differ at most in the order of members, at every level. Members are compared by their keys;
everything else, the order of elements included, is the same. -/
inductive Alike : Json → Json → Prop
  | null : Alike .null .null
  | bool (b : Bool) : Alike (.bool b) (.bool b)
  | int (n : Int) : Alike (.int n) (.int n)
  | float (x : Float) : Alike (.float x) (.float x)
  | str (s : String) : Alike (.str s) (.str s)
  | arr {xs ys : List Json} (hlength : xs.length = ys.length)
      (h : ∀ (i : Nat) x y, xs[i]? = some x → ys[i]? = some y → Alike x y) : Alike (.arr xs) (.arr ys)
  | obj {ms ns : Members} (hkeys : ∀ key, key ∈ ms.keys ↔ key ∈ ns.keys)
      (h : ∀ key x y, ms.get? key = some x → ns.get? key = some y → Alike x y) :
      Alike (.obj ms) (.obj ns)

/-- No key comes twice in an object, at any level. -/
def HasDistinctKeys (v : Json) : Prop := ∃ depth, Fits depth v

mutual

/-- The value with the members of its objects in order, at every level. -/
def ordered : Json → Json
  | .arr xs => .arr (orderedEach xs)
  | .obj ms => .obj (Table.inOrder (orderedMembers ms))
  | value => value

/-- Several values with their members in order. -/
def orderedEach : List Json → List Json
  | [] => []
  | x :: xs => ordered x :: orderedEach xs

/-- Members whose values have their members in order. -/
def orderedMembers : List (String × Json) → List (String × Json)
  | [] => []
  | (key, value) :: ms => (key, ordered value) :: orderedMembers ms

end

theorem orderedEach_eq (xs : List Json) : orderedEach xs = xs.map ordered := by
  induction xs with
  | nil => rfl
  | cons x xs ih => rw [orderedEach, ih, List.map_cons]

theorem orderedMembers_eq (ms : Members) : orderedMembers ms = ms.map fun m => (m.1, ordered m.2) := by
  induction ms with
  | nil => rfl
  | cons m ms ih => rw [orderedMembers, ih, List.map_cons]

theorem ordered_arr (xs : List Json) : ordered (.arr xs) = .arr (xs.map ordered) := by
  rw [ordered, orderedEach_eq]

theorem ordered_obj (ms : Members) :
    ordered (.obj ms) = .obj (Table.inOrder (ms.map fun m => (m.1, ordered m.2))) := by
  rw [ordered, orderedMembers_eq]

variable {depth depth' : Nat} {v w : Json}

/-- Objects are the same in order if they have the same members in order. -/
theorem ordered_obj_eq_iff {ms ns : Members} (hms : ms.keys.Nodup) (hns : ns.keys.Nodup) :
    ordered (.obj ms) = ordered (.obj ns) ↔
      ∀ key, (ms.get? key).map ordered = (ns.get? key).map ordered := by
  rw [ordered_obj, ordered_obj, obj.injEq,
    Table.inOrder_eq_iff (by rwa [Table.keys_map]) (by rwa [Table.keys_map])]
  simp only [Table.get?_map]

/-- By induction on the likeness: alike values are the same in order. -/
theorem Alike.ordered_eq (h : Alike v w) (hv : Fits depth v) (hw : Fits depth' w) :
    v.ordered = w.ordered := by
  induction h generalizing depth depth' with
  | null | bool | int | float | str => rfl
  | @arr xs ys hlength _ ih =>
      cases hv with
      | arr hxs =>
        cases hw with
        | arr hys =>
          rw [ordered_arr, ordered_arr]
          refine congrArg Json.arr (List.ext_getElem (by simpa using hlength) fun i hi hi' => ?_)
          rw [List.getElem_map, List.getElem_map]
          exact ih i _ _ (List.getElem?_eq_getElem _) (List.getElem?_eq_getElem _)
            (hxs _ (List.getElem_mem _)) (hys _ (List.getElem_mem _))
  | @obj ms ns hkeys _ ih =>
      cases hv with
      | obj hms hvalues =>
        cases hw with
        | obj hns hvalues' =>
          refine (ordered_obj_eq_iff hms hns).mpr fun key => ?_
          cases hx : ms.get? key with
          | none =>
              have hnone := mt (hkeys key).mpr (Table.get?_eq_none_iff.mp hx)
              rw [Table.get?_eq_none_iff.mpr hnone]
          | some x =>
              obtain ⟨y, hy⟩ : ∃ y, ns.get? key = some y := Option.ne_none_iff_exists'.mp fun hy =>
                Table.get?_eq_none_iff.mp hy ((hkeys key).mp (Table.mem_keys_of_get? hx))
              rw [hy]
              exact congrArg some (ih key x y hx hy (hvalues _ (Table.mem_of_get? hx))
                (hvalues' _ (Table.mem_of_get? hy)))

/-- By induction on the first value: values that are the same in order are alike. -/
theorem Fits.alike_of_ordered (hv : Fits depth v) (hw : Fits depth' w) (h : v.ordered = w.ordered) :
    Alike v w := by
  induction hv generalizing w depth' with
  | null | bool | int | float | str =>
      cases hw with
      | arr | obj => simp only [ordered] at h; cases h
      | null | bool | int | float | str =>
          simp only [ordered] at h
          cases h <;> constructor
  | @arr n xs _ ih =>
      cases hw with
      | null | bool | int | float | str | obj => simp only [ordered] at h; cases h
      | @arr m ys hys =>
          rw [ordered_arr, ordered_arr] at h
          have hmap := Json.arr.inj h
          refine .arr (by simpa using congrArg List.length hmap) fun i x y hx hy => ?_
          refine ih x (List.mem_of_getElem? hx) (hys y (List.mem_of_getElem? hy)) ?_
          have hplace := congrArg (fun l : List Json => l[i]?) hmap
          simpa [hx, hy] using hplace
  | @obj n ms hms _ ih =>
      cases hw with
      | null | bool | int | float | str | arr => simp only [ordered] at h; cases h
      | @obj m ns hns hvalues =>
          have hget := (ordered_obj_eq_iff hms hns).mp h
          refine .obj (fun key => ?_) fun key x y hx hy => ?_
          · rw [← not_iff_not, ← Table.get?_eq_none_iff, ← Table.get?_eq_none_iff,
              ← Option.map_eq_none_iff, hget key, Option.map_eq_none_iff]
          · refine ih _ (Table.mem_of_get? hx) (hvalues _ (Table.mem_of_get? hy)) ?_
            have hboth := hget key
            rw [hx, hy] at hboth
            exact Option.some.inj hboth

/-! ## Canonical texts -/

/-- The canonical form without sorting. -/
def Style.unsorted : Style := { Style.canonical with sorted := false }

theorem Style.isPlain_unsorted : Style.unsorted.IsPlain where
  between := ⟨0, rfl⟩
  afterKey := ⟨0, rfl⟩
  isUnsorted := rfl
  names := Style.isPlain_stored.names

/-- What is written without sorting can be read back. -/
theorem unsorted_inj {depth : Nat} {v w : Json} (hv : IsReadable .unsorted depth v)
    (hw : IsReadable .unsorted depth w) (h : Style.unsorted.print v = Style.unsorted.print w) :
    v = w := by
  have hread := parse?_print Style.isPlain_unsorted hv
  rw [h, parse?_print Style.isPlain_unsorted hw] at hread
  exact (Option.some.inj hread).symm

theorem structuralText_arr (values : List Json) : structuralText (.arr values) =
    bracket "[" "]" "," (values.map structuralText) := by
  unfold structuralText
  rw [Style.print, printList_eq]
  rfl

theorem structuralText_obj (ms : Members) : structuralText (.obj ms) = bracket "\x7b" "\x7d" ","
    ((sortByKey (ms.map fun m => (m.1, structuralText m.2))).map
      fun p => quote true p.1 ++ ":" ++ p.2) := by
  unfold structuralText
  rw [Style.print, printMembers_eq]
  rfl

/-- Members that are in order already are written as they stand. -/
theorem structuralText_obj_of_sorted {ms : Members} (h : ms.Pairwise fun a b => a.1 ≤ b.1) :
    structuralText (.obj ms) = bracket "\x7b" "\x7d" ","
      (ms.map fun m => quote true m.1 ++ ":" ++ structuralText m.2) := by
  have hsorted : sortByKey (ms.map fun m => (m.1, structuralText m.2)) =
      ms.map fun m => (m.1, structuralText m.2) := by
    refine List.mergeSort_of_pairwise ?_
    rw [List.pairwise_map]
    simpa using h
  rw [structuralText_obj, hsorted, List.map_map]
  rfl

theorem structuralText_single (key : String) (value : Json) : structuralText (.single key value) =
    "\x7b" ++ (quote true key ++ ":" ++ structuralText value) ++ "\x7d" := by
  rw [Json.single, structuralText_obj_of_sorted (List.pairwise_singleton _ _)]
  rfl

theorem structuralText_single_inj {key : String} {v w : Json}
    (h : structuralText (.single key v) = structuralText (.single key w)) :
    structuralText v = structuralText w := by
  rwa [structuralText_single, structuralText_single, String.append_left_inj, String.append_right_inj,
    String.append_right_inj] at h

theorem print_unsorted_obj (ms : Members) : Style.unsorted.print (.obj ms) =
    bracket "\x7b" "\x7d" "," (ms.map fun m => quote true m.1 ++ ":" ++ Style.unsorted.print m.2) := by
  rw [Style.print, printMembers_eq]
  simp only [Style.unsorted, Bool.false_eq_true, if_false, List.map_map]
  rfl

theorem structuralText_ofInts (ids : List Int) :
    structuralText (ofInts ids) = Style.unsorted.print (ofInts ids) := by
  rw [ofInts, structuralText_arr, Style.print, printList_eq, List.map_map, List.map_map]
  rfl

/-- Lists of texts are told apart by what is written of them. -/
theorem structuralText_ofTexts_inj {texts texts' : List String}
    (h : structuralText (ofTexts texts) = structuralText (ofTexts texts')) : texts = texts' := by
  have hprint : ∀ texts, structuralText (ofTexts texts) = Style.unsorted.print (ofTexts texts) := by
    intro texts
    rw [ofTexts, structuralText_arr, Style.print, printList_eq, List.map_map, List.map_map]
    rfl
  have hread : ∀ texts, IsReadable .unsorted 1 (ofTexts texts) := by
    intro texts
    refine .arr fun x hx => ?_
    obtain ⟨text, -, rfl⟩ := List.mem_map.mp hx
    exact .str text
  rw [hprint, hprint] at h
  have hsame := unsorted_inj (hread texts) (hread texts') h
  exact (List.map_inj_right fun _ _ => Json.str.inj).mp (Json.arr.inj hsame)

/-- The canonical text is that of the value with its members in order. -/
theorem Fits.structuralText_eq (h : Fits depth v) : structuralText v = Style.unsorted.print v.ordered := by
  induction h with
  | null | int | float | str => simp only [ordered, structuralText, Style.print] <;> rfl
  | bool b => cases b <;> rfl
  | arr _ ih =>
      rw [structuralText_arr, ordered_arr, Style.print, printList_eq, List.map_map]
      exact congrArg (bracket "[" "]" ",") (List.map_congr_left ih)
  | @obj n ms _ _ ih =>
      have hparts : sortByKey (ms.map fun m => (m.1, structuralText m.2)) =
          (Table.inOrder (ms.map fun m => (m.1, ordered m.2))).map fun m =>
            (m.1, Style.unsorted.print m.2) := by
        rw [← Table.inOrder_map, List.map_map]
        refine congrArg Table.inOrder (List.map_congr_left fun m hm => ?_)
        rw [ih m hm]
        rfl
      rw [structuralText_obj, ordered_obj, print_unsorted_obj, hparts, List.map_map]
      rfl

/-- In order, a value is as deep as it was and has no other keys. -/
theorem Fits.isReadable_ordered (h : Fits depth v) : IsReadable .unsorted depth v.ordered := by
  induction h with
  | null => exact .null
  | bool b => exact .bool b
  | int n => exact .int n
  | float x => exact .float (readsFloat x)
  | str s => exact .str s
  | arr _ ih =>
      rw [ordered_arr]
      exact .arr (List.forall_mem_map.mpr ih)
  | @obj n ms hkeys _ ih =>
      rw [ordered_obj]
      have hperm := Table.perm_inOrder (ms.map fun m => (m.1, ordered m.2))
      refine .obj ((hperm.map Prod.fst).nodup_iff.mpr ?_) fun m hm => ?_
      · rw [← Table.keys, Table.keys_map]
        exact hkeys
      · obtain ⟨m', hm', rfl⟩ := List.mem_map.mp (hperm.subset hm)
        exact ih m' hm'

/-- Values have the same canonical text just if they differ in nothing but the order of members. -/
theorem structuralText_eq_iff (hv : HasDistinctKeys v) (hw : HasDistinctKeys w) :
    structuralText v = structuralText w ↔ Alike v w := by
  obtain ⟨n, hv⟩ := hv
  obtain ⟨m, hw⟩ := hw
  constructor
  · intro h
    rw [hv.structuralText_eq, hw.structuralText_eq] at h
    have hdepth : IsReadable .unsorted (max n m) v.ordered := hv.isReadable_ordered.mono (le_max_left _ _)
    have hdepth' : IsReadable .unsorted (max n m) w.ordered := hw.isReadable_ordered.mono (le_max_right _ _)
    exact hv.alike_of_ordered hw (unsorted_inj hdepth hdepth' h)
  · intro h
    rw [hv.structuralText_eq, hw.structuralText_eq, h.ordered_eq hv hw]

/-! ## Making alike values -/

theorem HasDistinctKeys.alike (hv : HasDistinctKeys v) : Alike v v := (structuralText_eq_iff hv hv).mp rfl

/-- An object is like one with the same members in any other order. -/
theorem alike_of_perm {ms ns : Members} (hkeys : ms.keys.Nodup) (h : ∀ m ∈ ms, HasDistinctKeys m.2)
    (hperm : ms.Perm ns) : Alike (.obj ms) (.obj ns) := by
  have hkeysPerm : ms.keys.Perm ns.keys := hperm.map _
  refine .obj (fun key => hkeysPerm.mem_iff) fun key x y hx hy => ?_
  rw [(Table.perm_iff_get? hkeys (hkeysPerm.nodup_iff.mp hkeys)).mp hperm, hy] at hx
  cases hx
  exact (h _ (hperm.symm.subset (Table.mem_of_get? hy))).alike

namespace Alike

theorem obj_nil : Alike (.obj []) (.obj []) := .obj (fun _ => .rfl) (by rintro _ _ _ ⟨⟩)

theorem obj_cons {ms ns : Members} (h : Alike v w) (hrest : Alike (.obj ms) (.obj ns)) (key : String) :
    Alike (.obj ((key, v) :: ms)) (.obj ((key, w) :: ns)) := by
  cases hrest with
  | obj hkeys hvalues =>
      refine .obj (fun other => ?_) fun other x y hx hy => ?_
      · simp only [Table.keys, List.map_cons, List.mem_cons] at hkeys ⊢
        rw [hkeys]
      · rw [Table.get?_cons] at hx hy
        by_cases hkey : key = other
        · rw [if_pos hkey] at hx hy
          cases hx
          cases hy
          exact h
        · rw [if_neg hkey] at hx hy
          exact hvalues other x y hx hy

theorem single (h : Alike v w) (key : String) : Alike (.single key v) (.single key w) :=
  h.obj_cons obj_nil key

theorem arr_singleton (h : Alike v w) : Alike (.arr [v]) (.arr [w]) := by
  refine .arr rfl fun i x y hx hy => ?_
  cases i with
  | zero =>
      cases hx
      cases hy
      exact h
  | succ i => cases hx

/-- Alike objects have alike values. -/
theorem value {ms ns : Members} (h : Alike (.obj ms) (.obj ns)) (key : String)
    (hv : ms.get? key = some v) (hw : ns.get? key = some w) : Alike v w := by
  cases h with
  | obj _ hvalues => exact hvalues key v w hv hw

/-- Alike lists have alike elements. -/
theorem element {xs ys : List Json} (h : Alike (.arr xs) (.arr ys)) (i : Nat) (hv : xs[i]? = some v)
    (hw : ys[i]? = some w) : Alike v w := by
  cases h with
  | arr _ helements => exact helements i v w hv hw

end Alike

end Json

end FactIndex
