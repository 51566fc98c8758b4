import FactIndex.Fact.Item
import FactIndex.Fact.Property
import FactIndex.Proofs.Json.Printed

/-!
# Facts that are stored

Entities, properties and items are given back by reading what was written of them. Written as a text they
are read back as well, as far as the floats among them are.

## Main definitions

* `Schema.Inverts`: a reader gives back what was written.
* `Item.inverts_read`: an item is given back.
* `Item.floats`: the floats in an item.
* `Item.isReadable_toJson`: an item can be stored as a text.
-/

namespace FactIndex

/-! ## Readers and writers -/

namespace Schema

variable {α : Type} {read : Json → Checked α} {write : α → Json}

/-- The reader gives back what was written. -/
def Inverts (read : Json → Checked α) (write : α → Json) : Prop := ∀ a, read (write a) = .ok a

theorem withDefault_of_get {ms : Members} {name : String} {default a : α} {value : Json}
    (hget : Table.get? ms name = some value) (hread : read value = .ok a) :
    withDefault ms name default read = .ok a := by
  unfold withDefault
  rw [hget]
  simp only
  rw [hread, Checked.within_ok]

theorem required_of_get {ms : Members} {name : String} {a : α} {value : Json}
    (hget : Table.get? ms name = some value) (hread : read value = .ok a) :
    required ms name read = .ok a := by
  unfold required
  rw [hget]
  simp only
  rw [hread, Checked.within_ok]

theorem inverts_text : Inverts text .str := fun _ => rfl

theorem inverts_integer : Inverts integer .int := fun _ => rfl

theorem inverts_truth : Inverts truth .bool := fun _ => rfl

theorem inverts_optional_text : Inverts (optional text) Json.ofText?
  | none => rfl
  | some _ => rfl

theorem inverts_optional_integer : Inverts (optional integer) Json.ofInt?
  | none => rfl
  | some _ => rfl

theorem inverts_optional_number : Inverts (optional number) Json.ofFloat?
  | none => rfl
  | some _ => rfl

theorem each_map (h : Inverts read write) (as : List α) (i : Nat) :
    each read i (as.map write) = .ok as := by
  induction as generalizing i with
  | nil => rfl
  | cons a as ih =>
      rw [List.map_cons, each, h a, ih]
      rfl

theorem inverts_listOf (h : Inverts read write) :
    Inverts (listOf read) fun as => .arr (as.map write) :=
  fun as => each_map h as 0

theorem inverts_sequenceOf (h : Inverts read write) :
    Inverts (sequenceOf read) fun as => .arr (as.map write) :=
  fun as => each_map h as 0

end Schema

open FactIndex.Schema

/-! ## Entities, properties and items -/

theorem Entity.inverts_read : Inverts Entity.read Entity.toJson
  | ⟨_, _, _, _, none⟩ => rfl
  | ⟨_, _, _, _, some _⟩ => rfl

theorem Property.inverts_read : Inverts Property.read Property.toJson := by
  rintro ⟨key, type, inverse⟩
  cases type <;> rfl

theorem Property.inverts_optional :
    Inverts (optional Property.read) fun p => (p.map Property.toJson).getD .null
  | none => rfl
  | some p => by
      show some <$> Property.read p.toJson = _
      rw [Property.inverts_read p]
      rfl

theorem Comparator.inverts_read : Inverts Comparator.read fun c => .str c.mark := by
  intro c
  cases c <;> rfl

/-- An item is given back, from a text as well as from a value. -/
theorem Item.inverts_read (fromText : Bool) : Inverts (Item.read fromText) Item.toJson
  | .page ⟨_, _, _, _, none⟩ | .page ⟨_, _, _, _, some _⟩ => rfl
  | .text _ | .uri _ | .number _ | .boolean _ | .coordinate _ _ | .area _ => rfl
  | .time ⟨_, _, _, _, _, _, .gregorian⟩ | .time ⟨_, _, _, _, _, _, .julian⟩ => rfl

/-! ## Written as a text -/

/-- The floats in an item. -/
def Item.floats : Item → List Float
  | .number x => [x]
  | .time t => [t.second]
  | .coordinate lat lon => [lat, lon]
  | .area a => [a.north, a.west, a.south, a.east]
  | .page _ | .text _ | .uri _ | .boolean _ => []

open Json

variable {style : Style} {depth : Nat}

theorem isReadable_ofText? (s : Option String) : IsReadable style depth (ofText? s) := by
  cases s with
  | none => exact .null
  | some s => exact .str s

theorem isReadable_ofInt? (n : Option Int) : IsReadable style depth (ofInt? n) := by
  cases n with
  | none => exact .null
  | some n => exact .int n

theorem Entity.isReadable_toJson (e : Entity) : IsReadable style (depth + 1) e.toJson := by
  have hkeys : ["kind", "title", "namespace", "interwiki", "subobject", "sortkey"].Nodup := by decide
  refine .obj hkeys ?_
  simp only [List.forall_mem_cons]
  exact ⟨.str _, .str _, .int _, .str _, .str _, isReadable_ofText? _, List.forall_mem_nil _⟩

theorem Property.isReadable_toJson (p : Property) : IsReadable style (depth + 1) p.toJson := by
  have hkeys : ["key", "value_type", "inverse"].Nodup := by decide
  refine .obj hkeys ?_
  simp only [List.forall_mem_cons]
  exact ⟨.str _, .str _, .bool _, List.forall_mem_nil _⟩

/-- An item is read back from its text if its floats are. -/
theorem Item.isReadable_toJson {item : Item} (h : ∀ x ∈ item.floats, ReadsFloat style.floats x) :
    IsReadable style (depth + 1) item.toJson := by
  cases item with
  | page e => exact e.isReadable_toJson
  | text s | uri s =>
      refine .obj (show ["kind", "value"].Nodup by decide) ?_
      simp only [List.forall_mem_cons]
      exact ⟨.str _, .str _, List.forall_mem_nil _⟩
  | number x =>
      refine .obj (show ["kind", "value"].Nodup by decide) ?_
      simp only [List.forall_mem_cons]
      exact ⟨.str _, .float (h x (by simp [floats])), List.forall_mem_nil _⟩
  | boolean b =>
      refine .obj (show ["kind", "value"].Nodup by decide) ?_
      simp only [List.forall_mem_cons]
      exact ⟨.str _, .bool _, List.forall_mem_nil _⟩
  | time t =>
      have hkeys : ["kind", "year", "month", "day", "hour", "minute", "second", "calendar"].Nodup := by decide
      refine .obj hkeys ?_
      simp only [List.forall_mem_cons]
      exact ⟨.str _, .int _, .int _, .int _, .int _, .int _, .float (h _ (by simp [floats])), .str _,
        List.forall_mem_nil _⟩
  | coordinate lat lon =>
      refine .obj (show ["kind", "lat", "lon"].Nodup by decide) ?_
      simp only [List.forall_mem_cons]
      exact ⟨.str _, .float (h _ (by simp [floats])), .float (h _ (by simp [floats])),
        List.forall_mem_nil _⟩
  | area a =>
      refine .obj (show ["kind", "north", "west", "south", "east"].Nodup by decide) ?_
      simp only [List.forall_mem_cons]
      exact ⟨.str _, .float (h _ (by simp [floats])), .float (h _ (by simp [floats])),
        .float (h _ (by simp [floats])), .float (h _ (by simp [floats])), List.forall_mem_nil _⟩

end FactIndex
