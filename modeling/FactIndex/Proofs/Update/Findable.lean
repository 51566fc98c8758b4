import FactIndex.Proofs.Compile.Direct
import FactIndex.Proofs.Text.Links
import FactIndex.Proofs.Update.Exact

/-!
# What is written can be found

A value is written in one form and searched in another. The two forms are made on two sides: the writer
drops the targets of links and brings keywords to their normal form, and so does the compiler with the
keywords it is asked for. A text is found again if its searched form names no target of a link: there is
no opening with a colon that has a bar somewhere after it.

## Main definitions

* `Json.Lists`: a document in JSON lists a value under a property.
* `Mapped.Lists`: the same, before the document is put in JSON.
* `WriterSettings.searchedText`: the form in which a text is searched.
* `Deployment.written_isSearched`: when the stored form is the searched one.
-/

namespace FactIndex

open FactIndex.Effect FactIndex.Text

variable {σ : Type}

/-! ## Documents that list a value -/

/-- A document in JSON lists a value in an array of a group. -/
def Json.Lists (document : Json) (group array : String) (value : Json) : Prop :=
  ∃ groups arrays values, document = .obj groups ∧ (group, .obj arrays) ∈ groups ∧
    (array, .arr values) ∈ arrays ∧ value ∈ values

/-- Arrays list a value. -/
def Document.ListsIn (arrays : Table String (List Json)) (array : String) (value : Json) : Prop :=
  ∃ values, arrays.get? array = some values ∧ value ∈ values

namespace Document

variable {arrays : Table String (List Json)} {array : String} {value : Json}

theorem ListsIn.addTo (h : ListsIn arrays array value) (field : String × Json) :
    ListsIn (addTo arrays field) array value := by
  obtain ⟨values, hvalues, hmem⟩ := h
  unfold Document.addTo
  by_cases hfield : field.1 = array
  · subst hfield
    exact ⟨_, Table.get?_put_self _ _ _, by simp [hvalues, hmem]⟩
  · exact ⟨values, by rw [Table.get?_put_of_ne _ _ hfield, hvalues], hmem⟩

theorem listsIn_addTo (arrays : Table String (List Json)) (field : String × Json) :
    ListsIn (addTo arrays field) field.1 field.2 :=
  ⟨_, Table.get?_put_self _ _ _, by simp⟩

theorem ListsIn.addEach (h : ListsIn arrays array value) (fields : List (String × Json)) :
    ListsIn (fields.foldl Document.addTo arrays) array value :=
  List.foldlRecOn (motive := fun arrays => ListsIn arrays array value) _ _ h
    fun _ h field _ => h.addTo field

theorem listsIn_addEach (arrays : Table String (List Json)) {fields : List (String × Json)}
    {field : String × Json} (h : field ∈ fields) :
    ListsIn (fields.foldl Document.addTo arrays) field.1 field.2 := by
  obtain ⟨before, after, rfl⟩ := List.append_of_mem h
  rw [List.foldl_append, List.foldl_cons]
  exact (listsIn_addTo _ field).addEach after

/-- A document lists a value under a property. -/
def Lists (d : Document) (property : Int) (array : String) (value : Json) : Prop :=
  ∃ arrays, d.groups.get? property = some arrays ∧ ListsIn arrays array value

theorem Lists.add {d : Document} {property : Int} (h : d.Lists property array value) (other : Int)
    (fields : List (String × Json)) : (d.add other fields).Lists property array value := by
  obtain ⟨arrays, harrays, hlists⟩ := h
  unfold Document.add Lists
  by_cases hother : other = property
  · subst hother
    exact ⟨_, Table.get?_put_self _ _ _, by simpa [harrays] using hlists.addEach fields⟩
  · exact ⟨arrays, by rw [Table.get?_put_of_ne _ _ hother, harrays], hlists⟩

theorem lists_add (d : Document) (property : Int) {fields : List (String × Json)}
    {field : String × Json} (h : field ∈ fields) :
    (d.add property fields).Lists property field.1 field.2 :=
  ⟨_, Table.get?_put_self _ _ _, listsIn_addEach _ h⟩

theorem Lists.toJson {d : Document} {property : Int} (h : d.Lists property array value) :
    d.toJson.Lists (Field.group property) array value := by
  obtain ⟨arrays, harrays, values, hvalues, hmem⟩ := h
  refine ⟨_, _, values, rfl, List.mem_cons_of_mem _ (List.mem_map.mpr
    ⟨_, Table.mem_of_get? harrays, rfl⟩), List.mem_map.mpr ⟨_, Table.mem_of_get? hvalues, rfl⟩, hmem⟩

end Document

namespace Mapped

variable {w : WriterSettings} {c : Catalog} {change : Change}

/-- The document of an entity lists a value under a property. -/
def Lists (m : Mapped) (number property : Int) (array : String) (value : Json) : Prop :=
  ∃ d, m.documents.get? number = some d ∧ d.Lists property array value

variable {m : Mapped} {number property : Int} {array : String} {value : Json}

theorem document?_of_get? {d : Document} (h : m.documents.get? number = some d) :
    m.document? c change number = some d := by
  unfold document?
  rw [h]

/-- The entity that a change is about has a document, and so have all that are known. -/
theorem exists_document? (h : number = change.subjectNumber ∨ ∃ e, c.entity? number = some e) :
    ∃ d, m.document? c change number = some d := by
  unfold document?
  split
  · exact ⟨_, rfl⟩
  · by_cases hsubject : number = change.subjectNumber
    · exact ⟨_, by rw [if_pos hsubject]; rfl⟩
    · obtain ⟨e, he⟩ := h.resolve_left hsubject
      exact ⟨_, by rw [if_neg hsubject, he]; rfl⟩

/-- What is listed stays listed, as documents only grow. -/
theorem Lists.addRow (h : m.Lists number property array value) (r : Row) :
    (m.addRow w c change r).Lists number property array value := by
  obtain ⟨d, hd, hlists⟩ := h
  have hput (other : Int) (e : Document) (hsame : other = number → e.Lists property array value) :
      ∃ d, (m.documents.put other e).get? number = some d ∧ d.Lists property array value := by
    by_cases hother : other = number
    · subst hother
      exact ⟨e, Table.get?_put_self _ _ _, hsame rfl⟩
    · exact ⟨d, by rw [Table.get?_put_of_ne _ _ hother, hd], hlists⟩
  unfold Mapped.addRow
  split
  · exact ⟨d, hd, hlists⟩
  · rename_i other _
    split
    · exact ⟨d, hd, hlists⟩
    · rename_i e he
      have hsame : other = number → e = d := by
        rintro rfl
        rw [document?_of_get? hd] at he
        exact (Option.some.inj he).symm
      dsimp only
      split
      · unfold Mapped.Lists
        rw [documents_mention]
        exact hput other _ fun h => by rw [hsame h]; exact hlists.add _ _
      · exact hput other e fun h => by rw [hsame h]; exact hlists

/-- The document of a row's entity lists what the row is stored as. -/
theorem lists_addRow (m : Mapped) {r : Row} {payload : Payload} {field : String × Json}
    (hsubject : r.subject = some number) (hproperty : r.property = some property)
    (hpayload : r.payload = some payload)
    (hknown : number = change.subjectNumber ∨ ∃ e, c.entity? number = some e)
    (hfield : field ∈ payload.fields w c ((change.properties.get? property).map PropertyInfo.valueType)) :
    (m.addRow w c change r).Lists number property field.1 field.2 := by
  obtain ⟨d, hd⟩ := exists_document? (m := m) hknown
  unfold Mapped.addRow Mapped.Lists
  simp only [hsubject, hd, hproperty, hpayload, documents_mention]
  exact ⟨_, Table.get?_put_self _ _ _, Document.lists_add _ _ hfield⟩

/-- By induction on the rows: what one row makes is kept by all that follow. -/
theorem lists_ofChange {r : Row} {payload : Payload} {field : String × Json}
    (hr : r ∈ change.rows.flatMap RowGroup.rows)
    (hsubject : r.subject = some number) (hproperty : r.property = some property)
    (hpayload : r.payload = some payload)
    (hknown : number = change.subjectNumber ∨ ∃ e, c.entity? number = some e)
    (hfield : field ∈ payload.fields w c ((change.properties.get? property).map PropertyInfo.valueType)) :
    (ofChange w c change).Lists number property field.1 field.2 := by
  obtain ⟨before, after, hrows⟩ := List.append_of_mem hr
  unfold ofChange
  rw [hrows, List.foldl_append, List.foldl_cons]
  exact List.foldlRecOn (motive := fun m : Mapped => m.Lists number property field.1 field.2) _ _
    (lists_addRow _ hsubject hproperty hpayload hknown hfield) fun _ h r _ => h.addRow r

end Mapped

/-- The writes of a change hold every document that the change makes. -/
theorem Change.mem_operations {w : WriterSettings} {c : Catalog} {change : Change} {number property : Int}
    {array : String} {value : Json} (h : (Mapped.ofChange w c change).Lists number property array value)
    (index : String) : ∃ document ∈ change.operations w c index,
      document.Lists (Field.group property) array value := by
  obtain ⟨d, hd, hlists⟩ := h
  refine ⟨d.toJson, ?_, hlists.toJson⟩
  unfold operations
  refine List.mem_append_right _ (List.mem_flatMap.mpr ⟨_, Table.mem_of_get? hd, ?_⟩)
  simp

/-! ## Queries for texts and addresses -/

/-- The form in which a text is searched, as a value of a type. -/
def WriterSettings.searchedText (w : WriterSettings) (type : ValueType) (s : String) : String :=
  if type = .keyword ∧ w.normalKeywords then Field.keyword s else s

/-- The digest of a row, if it has one, stands for the same keyword as its text. -/
def Row.AgreesOnKeyword (digest : Option String) (s : String) : Prop :=
  ∀ other, digest = some other → other = "" ∨ Field.keyword other = Field.keyword s

namespace WriterSettings

/-- A text is stored in the form in which it is searched, without the targets of links unless these are
kept. -/
theorem storedText_eq (w : WriterSettings) (type : ValueType) {s : String} {digest : Option String}
    (h : type = .keyword → w.normalKeywords = true → Row.AgreesOnKeyword digest s) :
    w.storedText (some type) s digest =
      if w.rawText then w.searchedText type s else withoutTargets (w.searchedText type s) := by
  unfold storedText searchedText
  by_cases hkeyword : type = .keyword ∧ w.normalKeywords = true
  · have hagrees := h hkeyword.1 hkeyword.2
    cases digest with
    | none => simp [hkeyword]
    | some other =>
        by_cases hempty : other = ""
        · simp [hkeyword, hempty]
        · have hsame := (hagrees other rfl).resolve_left hempty
          simp [hkeyword, hempty, hsame]
  · simp [hkeyword]

theorem storedText_eq_searchedText_iff (w : WriterSettings) (type : ValueType) {s : String}
    {digest : Option String}
    (h : type = .keyword → w.normalKeywords = true → Row.AgreesOnKeyword digest s) :
    w.storedText (some type) s digest = w.searchedText type s ↔
      w.rawText = true ∨ ¬ NamesTarget (w.searchedText type s).toList := by
  rw [w.storedText_eq type h]
  cases hraw : w.rawText <;> simp [withoutTargets_eq_iff]

end WriterSettings

namespace Deployment

variable (d : Deployment σ) {p : Property}

/-- The query for values of a property asks the whole values for a text, under the property and under
what lies below it. -/
def Seeks (isMember : Bool) (p : Property) (item : Item) (named : Option Property) (depth : Option Int)
    (w : World σ) (searched : String) : Prop :=
  let group := Field.group (w.catalog.number (.property p)).1
  ∃ occur lower progress u,
    (d.compile isMember (.someProperty p (.value item .eq named) depth)).outcome w =
      (.ok (some (Clause.compound occur [Clause.overHierarchy
        (Clause.term (Field.inGroup group (Field.ofProperty p) ++ ".keyword") (.str searched))
        group lower]), progress), u)

variable {d} {isMember : Bool} {named : Option Property} {depth : Option Int} {w : World σ}

theorem seeks_of_condition {item : Item} {value : Json} {searched : String}
    (hdirect : p.inverse = false) (htimes : item.times = [])
    (htarget : ∀ v : World σ, (arrayValue (Field.ofProperty p) item .eq).outcome v =
      (.ok (Field.ofProperty p, value), v))
    (hm : ∀ group, ∃ m, Condition.ofProperty d.settings.query d.settings.writer.normalKeywords p.valueType group
      (Field.ofProperty p) item .eq value = .ok m ∧ m.negated = false ∧ m.clause =
        Clause.term (Field.inGroup group (Field.ofProperty p) ++ ".keyword") (.str searched)) :
    d.Seeks isMember p item named depth w searched := by
  obtain ⟨lower, u, haim⟩ := d.exists_aim depth w htarget
  obtain ⟨m, hm, hpositive, hclause⟩ := hm (Field.group (w.catalog.number (.property p)).1)
  have hportrait : ∃ ms,
      (Description.someProperty p (.value item .eq named) depth).portrait = .ok ms := by
    rw [Description.isOk_portrait]
    simp [Description.times, htimes]
  obtain ⟨progress, hcompile⟩ := d.outcome_compile_value hdirect isMember named
    (fun _ => hportrait) haim hm
  refine ⟨m.occur, lower, progress, u, ?_⟩
  rw [hcompile]
  simp only [Condition.Matched.whole, hpositive, hclause]
  rfl

theorem seeks_text (htext : d.settings.query.textIgnoresCase = false) (hdirect : p.inverse = false)
    (s : String) : d.Seeks isMember p (.text s) named depth w
      (d.settings.writer.searchedText p.valueType s) := by
  refine seeks_of_condition hdirect rfl (fun v => rfl) fun group => ⟨_, rfl, ?_⟩
  unfold Condition.textEquals WriterSettings.searchedText
  by_cases htype : p.valueType = .keyword <;> simp [htype, htext]

theorem seeks_uri (huri : d.settings.query.uriIgnoresCase = false) (hdirect : p.inverse = false)
    (s : String) : d.Seeks isMember p (.uri s) named depth w (percentDecode s) := by
  refine seeks_of_condition hdirect rfl (fun v => rfl) fun group => ⟨_, rfl, ?_⟩
  unfold Condition.uriEquals
  simp [huri, Json.plainText]

/-- A row of a direct property, whose type is known to the change, and the query for its value. A text is
searched in its normal form, and that is what the row is stored as exactly if link targets are kept or the
form has none; a digest that stands for another keyword apart. An address is stored as it is searched if it
is its own decoded form. What the row is stored as is listed in a document that the change writes. -/
theorem written_isSearched (d : Deployment σ) (htext : d.settings.query.textIgnoresCase = false)
    (huri : d.settings.query.uriIgnoresCase = false) {p : Property} (hdirect : p.inverse = false)
    (isMember : Bool) (named : Option Property) (depth : Option Int) (w : World σ) {c : Catalog}
    {change : Change} (index : String) {r : Row} {number : Int}
    (hr : r ∈ change.rows.flatMap RowGroup.rows) (hsubject : r.subject = some number)
    (hknown : number = change.subjectNumber ∨ ∃ e, c.entity? number = some e)
    (hproperty : r.property = some (w.catalog.number (.property p)).1)
    (hdeclared : (change.properties.get? (w.catalog.number (.property p)).1).map PropertyInfo.valueType =
      some p.valueType) :
    let lists (value : String) := ∃ document ∈ change.operations d.settings.writer c index,
      document.Lists (Field.group (w.catalog.number (.property p)).1) (Field.ofProperty p) (.str value)
    (∀ s digest, r.payload = some (.text s digest) → p.valueType = .text ∨ p.valueType = .keyword →
      let searched := d.settings.writer.searchedText p.valueType s
      let stored := d.settings.writer.storedText (some p.valueType) s digest
      d.Seeks isMember p (.text s) named depth w searched ∧ lists stored ∧
        ((p.valueType = .keyword → d.settings.writer.normalKeywords = true →
            Row.AgreesOnKeyword digest s) →
          (stored = searched ↔
            d.settings.writer.rawText = true ∨ ¬ NamesTarget searched.toList))) ∧
    ∀ s, r.payload = some (.uri s) → p.valueType = .uri → percentDecode s = s →
      d.Seeks isMember p (.uri s) named depth w s ∧ lists s := by
  have hlists {payload : Payload} {array value : String} (hpayload : r.payload = some payload)
      (hfield : (array, .str value) ∈ payload.fields d.settings.writer c (some p.valueType)) :
      ∃ document ∈ change.operations d.settings.writer c index,
        document.Lists (Field.group (w.catalog.number (.property p)).1) array (.str value) :=
    Change.mem_operations (Mapped.lists_ofChange hr hsubject hproperty hpayload hknown
      (hdeclared ▸ hfield)) index
  refine ⟨fun s digest hpayload htype => ⟨seeks_text htext hdirect s, ?_, fun hdigest =>
    d.settings.writer.storedText_eq_searchedText_iff p.valueType hdigest⟩,
    fun s hpayload htype hdecoded => ⟨?_, ?_⟩⟩
  · have harray : Field.ofProperty p = Field.ofType .text := by
      unfold Field.ofProperty
      obtain h | h := htype
      · rw [h]
      · rw [h]
        rfl
    exact hlists hpayload (by simp [Payload.fields, harray])
  · have hseeks : d.Seeks isMember p (.uri s) named depth w (percentDecode s) := seeks_uri huri hdirect s
    rwa [hdecoded] at hseeks
  · have harray : Field.ofProperty p = Field.ofType .uri := by
      unfold Field.ofProperty
      rw [htype]
    exact hlists hpayload (by simp [Payload.fields, harray])

private def linkStore : Deployment Unit where
  settings := {}
  client := ⟨fun _ s => (.error .connection, s)⟩
  cache := {}
  queue := {}

private def caption : Property := { key := "Caption", valueType := .text }

private def linkWorld : World Unit where
  engine := ()
  catalog := { next := 22, numbers := [(.property "Caption", 21)] }

/-- The caption of a page is set to a text. -/
private def linkChange (s : String) : Change where
  subject := { title := "Map" }
  subjectNumber := 13
  rows := [⟨"data", none, [⟨.insert, some 13, some 21, some (.text s none), fun _ => rfl⟩]⟩]
  properties := [(21, ⟨"Caption", .text⟩)]

/-- The only document that is written has the caption without link targets. -/
private theorem operations_linkChange (s : String) :
    (linkChange s).operations linkStore.settings.writer linkWorld.catalog "semindex-data" =
      [writeLine "index" "semindex-data" "13",
        .obj [("subject", (linkChange s).subject.subjectJson),
          ("P:21", .obj [("txtField", .arr [.str (withoutTargets s)])])]] :=
  rfl

theorem written_isSearched_link :
    linkStore.settings.query.textIgnoresCase = false ∧
      linkStore.settings.query.uriIgnoresCase = false ∧ caption.inverse = false ∧
      (∃ r ∈ (linkChange "[[Berlin|B]]").rows.flatMap RowGroup.rows, r.subject = some 13 ∧
        r.property = some (linkWorld.catalog.number (.property caption)).1 ∧
        r.payload = some (.text "[[Berlin|B]]" none)) ∧
      13 = (linkChange "[[Berlin|B]]").subjectNumber ∧
      ((linkChange "[[Berlin|B]]").properties.get? (linkWorld.catalog.number (.property caption)).1).map
        PropertyInfo.valueType = some caption.valueType ∧
      ¬ NamesTarget "[[Berlin|B]]".toList ∧
      linkStore.Seeks false caption (.text "[[Berlin|B]]") none none linkWorld "[[Berlin|B]]" ∧
      ∃ document ∈ (linkChange "[[Berlin|B]]").operations linkStore.settings.writer linkWorld.catalog
        "semindex-data", document.Lists (Field.group 21) "txtField" (.str "[[Berlin|B]]") := by
  have hplain : ¬ NamesTarget "[[Berlin|B]]".toList := by
    rintro ⟨before, rest, h, -⟩
    have hcolon : ':' ∈ "[[Berlin|B]]".toList := by rw [h]; simp
    exact absurd hcolon (by decide)
  have hrow : ⟨.insert, some 13, some 21, some (.text "[[Berlin|B]]" none), fun _ => rfl⟩ ∈
      (linkChange "[[Berlin|B]]").rows.flatMap RowGroup.rows := List.mem_singleton.mpr rfl
  have hknown : 13 = (linkChange "[[Berlin|B]]").subjectNumber ∨
      ∃ e, linkWorld.catalog.entity? 13 = some e := .inl rfl
  obtain ⟨hseeks, hlists, hsame⟩ := (written_isSearched linkStore rfl rfl (rfl : caption.inverse = false)
    false none none linkWorld "semindex-data" hrow rfl hknown rfl rfl).1 _ _ rfl (.inl rfl)
  have hstored := (hsame nofun).mpr (.inr hplain)
  rw [hstored] at hlists
  exact ⟨rfl, rfl, rfl, ⟨_, List.mem_singleton.mpr rfl, rfl, rfl, rfl⟩, rfl, rfl, hplain, hseeks, hlists⟩

/-- A link to a page by its full name is not found: the document has the caption without the name, and the
query asks for the caption with it. -/
theorem link_notSearched :
    linkStore.Seeks false caption (.text "[[:Berlin|B]]") none none linkWorld "[[:Berlin|B]]" ∧
      ∀ document ∈ (linkChange "[[:Berlin|B]]").operations linkStore.settings.writer linkWorld.catalog
        "semindex-data", ¬ document.Lists "P:21" "txtField" (.str "[[:Berlin|B]]") := by
  refine ⟨seeks_text rfl rfl _, ?_⟩
  have hnamed : NamesTarget "[[:Berlin|B]]".toList := ⟨[], "Berlin|B]]".toList, rfl, by decide⟩
  have hother : withoutTargets "[[:Berlin|B]]" ≠ "[[:Berlin|B]]" :=
    mt (withoutTargets_eq_iff _).mp (not_not_intro hnamed)
  rw [operations_linkChange]
  rintro document hmem ⟨groups, arrays, values, hgroups, harrays, hvalues, hvalue⟩
  rcases List.mem_cons.mp hmem with rfl | hmem
  · simp [writeLine, Json.single] at hgroups
    subst hgroups
    simp at harrays
  · cases List.mem_singleton.mp hmem
    cases hgroups
    simp [Entity.subjectJson] at harrays
    subst harrays
    simp at hvalues
    subst hvalues
    exact hother (Json.str.inj (List.mem_singleton.mp hvalue)).symm

end Deployment

end FactIndex
