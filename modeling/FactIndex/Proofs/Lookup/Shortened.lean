import FactIndex.Proofs.Lookup.Exact
import FactIndex.Proofs.Lookup.Found

/-!
# Lookups that find more than they ask for

The search of a lookup asks for so many documents and no more, while the answer says how many match in all.
What the lookup results in stands for the documents that were named, whether it lists them or refers to a
stored list, and the number of all that match is recorded beside it. That more match than were named is no
error.

## Main definitions

* `ListIndex.behind`: what is behind a result in a state of the engine.
* `LookupCall.run_shortened`: what a call results in.
-/

namespace FactIndex

open FactIndex.Effect

variable {σ : Type} {d : Deployment σ}

namespace ListIndex

variable {client : SearchClient σ} {index : String} (L : ListIndex client index)

/-- What is behind a result: the numbers themselves, or the list in the document that it refers to. -/
def behind (s : σ) : Numbers → List Json
  | .listed ids => ids.map Json.int
  | .stored id => listed (L.document? s id)

theorem behind_stored {s : σ} {id : String} {ids : List Json}
    (h : L.document? s id = some (.single "id" (.arr ids))) : L.behind s (.stored id) = ids :=
  congrArg listed h

end ListIndex

namespace Lookup

/-- What a lookup reads off an answer that reports documents. -/
theorem ofSearch_of_reports {l : Lookup} {answer : Json} {count : Nat} {named : List Int}
    (hfield : l.field = none) (h : Hits.Reports answer count named) :
    l.ofSearch (.ok answer) = .ok ⟨count, named.map Json.int, []⟩ := by
  obtain ⟨ms, rfl, htotal, hnumbers⟩ := h.exists_members
  have hsearch : ClientError.ofSearch (.ok (.obj ms)) = .ok (ms, []) := rfl
  have hanswer : l.ofAnswer ms = .ok ((count : Int), named.map Json.int) := by
    unfold ofAnswer
    dsimp only
    rw [htotal, hfield, hnumbers]
    rfl
  unfold ofSearch
  rw [hsearch]
  show (l.ofAnswer ms >>= _) = _
  rw [hanswer]
  rfl

end Lookup

/-- The first of some different numbers are all of them exactly if there are no more than so many. -/
theorem forall_mem_take_iff {matching : List Int} (hnodup : matching.Nodup) (size : Nat) :
    (∀ n ∈ matching, Json.int n ∈ (matching.take size).map Json.int) ↔ matching.length ≤ size := by
  have hmem : ∀ n, Json.int n ∈ (matching.take size).map Json.int ↔ n ∈ matching.take size := by
    intro n
    rw [List.mem_map]
    constructor
    · rintro ⟨m, hm, ⟨⟩⟩
      exact hm
    · exact fun hn => ⟨n, hn, rfl⟩
  simp only [hmem]
  constructor
  · intro h
    have hle := (hnodup.subperm h).length_le
    rw [List.length_take] at hle
    omega
  · intro h n hn
    rwa [List.take_of_length_le h]

namespace LookupCall

/-- A call whose search is answered stands for the first of the documents that match, so many as were asked
for. These are all of them exactly if there are no more. How many there are in all is recorded, and no error
is. A call that does not search stands for what an earlier one with the same key has come to. -/
theorem run_shortened (L : ListIndex d.client (d.indexName IndexType.lookup))
    (hstores : d.client.Stores (d.indexName IndexType.lookup)) {call : LookupCall} {l : Lookup}
    (hcall : call.lookup? d = some l) (hfield : l.field = none)
    (hcache : d.cache.IsUsable .waiting l.lifetime) {w : World σ} {good : Lookup → Numbers → Prop}
    (hgood : d.Remembers w good) (hsize : 1 ≤ d.settings.subquery.size) {answer : Json} {matching : List Int}
    (hnodup : matching.Nodup) (hanswer : (d.client.send (l.request d) w.engine).1 = .ok answer)
    (hreports : Hits.Reports answer matching.length (matching.take d.settings.subquery.size.toNat)) :
    ∃ r after numbers, (call.run d).outcome w = (.ok r, after) ∧ Table.get? r.record "errors" = none ∧
      r.clause = d.hasNumber call.target (numbers.toJson (d.indexName IndexType.lookup)) ∧
      ((∃ l', l'.keyText = l.keyText ∧ good l' numbers ∧ d.Remembers after good) ∨
        (Table.get? r.record "count" = some (.int matching.length) ∧
          L.behind after.engine numbers = (matching.take d.settings.subquery.size.toNat).map Json.int ∧
          ((∀ n ∈ matching, .int n ∈ L.behind after.engine numbers) ↔
            matching.length ≤ d.settings.subquery.size) ∧
          d.Remembers after fun l' numbers' => good l' numbers' ∨ l' = l ∧ numbers' = numbers)) := by
  obtain ⟨header, hheader, hrun⟩ := run_of_lookup? hcall
  have hfind : ∀ w' : World σ, w'.engine = w.engine → ∃ count, ∃ ids : List Int,
      (l.find d).outcome w' = (.ok ⟨count, ids.map Json.int, []⟩, w'.asked d (l.request d)) ∧
        (count = matching.length ∧ ids = matching.take d.settings.subquery.size.toNat) := by
    intro w' hw'
    refine ⟨_, _, ?_, rfl, rfl⟩
    rw [l.find_eq, outcome_bind_of_ok (outcome_ask d _ w'), hw', hanswer,
      Lookup.ofSearch_of_reports hfield hreports]
    exact outcome_ofExcept _ _
  obtain ⟨count, numbers, record, after, hresolve, hcount, herrors, -, hcases⟩ :=
    l.exists_resolve hcache hstores hgood rfl hfind
  refine ⟨⟨d.hasNumber call.target (numbers.toJson (d.indexName IndexType.lookup)), header ++ record⟩, after,
    numbers, ?_, ?_, rfl, ?_⟩
  · rw [hrun]
    exact outcome_bind_of_ok hresolve _
  · rw [Table.get?_append (hheader "errors" (by simp)), herrors]
  · rcases hcases with ⟨-, l', hkey, hl', -, hremembers⟩ | ⟨-, ids, ⟨rfl, rfl⟩, rfl, hengine, hremembers⟩
    · exact .inl ⟨l', hkey, hl', hremembers⟩
    · have hbehind : L.behind after.engine (l.resultOf
          ⟨matching.length, (matching.take d.settings.subquery.size.toNat).map Json.int, []⟩
            (matching.take d.settings.subquery.size.toNat)) =
          (matching.take d.settings.subquery.size.toNat).map Json.int := by
        rw [hengine]
        unfold Lookup.resultOf
        split
        · exact L.behind_stored (L.document?_afterStoring hstores _ _ _)
        · rfl
      refine .inr ⟨?_, hbehind, ?_, hremembers _ (fun _ _ => .inl) (.inr ⟨rfl, rfl⟩)⟩
      · rw [Table.get?_append (hheader "count" (by simp)), hcount]
      · rw [hbehind, forall_mem_take_iff hnodup, Int.le_toNat (Int.le_trans (by decide) hsize)]

/-- Intermediate queries ask for one document each, and every list is stored. -/
private def townSettings : Settings := { subquery := { size := 1, threshold := 1 } }

/-- Two documents are of the main namespace. -/
private def townArchive : Archive where
  docs := [10, 11].map fun n => (n, fun field => if field = "subject.namespace" then [.int 0] else [])

private def townWorld : World Archive where
  engine := townArchive
  catalog := { next := 12 }

private def townClauses : Json := .arr [Clause.term "subject.namespace" (.int 0)]

/-- What is located in something of the main namespace. -/
private def townCall : LookupCall := .plain "town" "P:1.wpgID" townClauses

private def townLookup : Lookup := (Archive.deployment townSettings).plainLookup "town" townClauses

private theorem selected_town :
    townWorld.engine.selected (Deployment.wrapped townClauses true) = [10, 11] := by
  have hwrapped : Deployment.wrapped townClauses true =
      Clause.constantScore (Clause.compound .must [Clause.term "subject.namespace" (.int 0)]) := rfl
  rw [hwrapped]
  simp [Archive.selected, townWorld, townArchive, Clause.holds_constantScore, Matching.hasValue, Archive.base]

private theorem send_town : ((Archive.deployment townSettings).client.send
    (townLookup.request (Archive.deployment townSettings)) townWorld.engine).1 =
      .ok (Archive.report [10, 11] 1) := by
  rw [← selected_town]
  rfl

theorem run_shortened_town :
    townCall.lookup? (Archive.deployment townSettings) = some townLookup ∧
      ∃ r after numbers, (townCall.run (Archive.deployment townSettings)).outcome townWorld = (.ok r, after) ∧
        r.clause = (Archive.deployment townSettings).hasNumber "P:1.wpgID"
          (numbers.toJson ((Archive.deployment townSettings).indexName IndexType.lookup)) ∧
        Table.get? r.record "count" = some (.int 2) ∧
        (Archive.exact townSettings).behind after.engine numbers = [.int 10] := by
  have hempty : (Archive.deployment townSettings).Remembers townWorld fun _ _ => False :=
    .of_empty fun _ => rfl
  obtain ⟨r, after, numbers, hrun, -, hclause, ⟨_, _, hnone, _⟩ | ⟨hcount, hbehind, -, -⟩⟩ :=
    run_shortened (Archive.exact townSettings).toListIndex (Archive.exact townSettings).stores
      (show townCall.lookup? (Archive.deployment townSettings) = some townLookup from rfl) rfl
      (fun _ _ h => nomatch h) hempty (by decide) (by decide) send_town (Archive.reports_report [10, 11] 1)
  · exact hnone.elim
  · exact ⟨rfl, r, after, numbers, hrun, hclause, hcount, hbehind⟩

/-- Of two documents that match, only one is in the stored list that the clause refers to, and no error is
recorded. -/
theorem run_omits_town :
    townWorld.engine.selected (Deployment.wrapped townClauses true) = [10, 11] ∧
      ∃ r after, (townCall.run (Archive.deployment townSettings)).outcome townWorld = (.ok r, after) ∧
        r.clause = (Archive.deployment townSettings).hasNumber "P:1.wpgID"
          (Clause.reference "semindex-lookup" townLookup.id "id") ∧
        (Archive.exact townSettings).document? after.engine townLookup.id =
          some (.single "id" (.arr [.int 10])) ∧
        Table.get? r.record "errors" = none := by
  have hbody : townLookup.body =
      (Archive.deployment townSettings).lookupBody (Deployment.wrapped townClauses true) (.bool false) := rfl
  have hresolve : (townLookup.resolve (Archive.deployment townSettings)).outcome townWorld = _ :=
    Archive.resolve_eq rfl hbody rfl
  rw [selected_town] at hresolve
  exact ⟨selected_town, _, _, outcome_bind_of_ok hresolve _, rfl, Table.get?_put_self _ _ _, rfl⟩

end LookupCall

end FactIndex
