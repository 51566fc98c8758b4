import FactIndex.Proofs.Queue.Delivery
import Mathlib.Data.List.Nodup
import Mathlib.Data.List.Perm.Subperm

/-!
# Queues that can stand for each other

Two queues that are asked the same give the same answers, wherever they keep their messages, as long as
every pull may return all messages that are due. Only the order may differ in which a pull returns them.

## Main definitions

* `Queue.due`: the messages that are due.
* `Queue.Answer.IsLike`, `Queue.Event.IsLike`: the same up to the order of messages.
* `Queue.Parallel`: the same has been asked of two queues that were empty at first.
* `Queue.Parallel.isLike`: they gave the same answers.
-/

namespace FactIndex.Queue

open FactIndex.Effect FactIndex.KeyValue

/-! ## What is due -/

/-- The message is ready, and can be seen. -/
def Holding.isDue (now : Float) : Holding → Bool
  | .ready m => m.available ≤ now
  | .flying _ _ => false

/-- The names of the messages that are due once those are ready whose time in flight is over. -/
def due (q : Queue) (site : Site) : List String :=
  ((q.contents site).ready ++ (q.contents site).inFlight).filter fun id =>
    ((q.ledger site).release site.2.network.now id).any (Holding.isDue site.2.network.now)

variable {q r : Queue} {site : Site}

theorem IsOrderly.nodup_due (h : q.IsOrderly site) : (q.due site).Nodup := by
  refine List.Nodup.filter _ (List.nodup_iff_count_le_one.mpr fun id => ?_)
  rw [Contents.IsOrderly.count_names h]
  split <;> omega

theorem IsOrderly.mem_due (h : q.IsOrderly site) {id : String} {m : Message}
    (hready : (q.ledger site).release site.2.network.now id = some (.ready m))
    (hdue : m.available ≤ site.2.network.now) : id ∈ q.due site := by
  refine List.mem_filter.mpr ⟨?_, ?_⟩
  · have hheld : q.ledger site id ≠ none := by
      intro hnone
      unfold Ledger.release at hready
      rw [hnone] at hready
      cases hready
    have hsome : ((q.contents site).ledger id).isSome = true := Option.isSome_iff_ne_none.mpr hheld
    refine List.count_pos_iff.mp ?_
    rw [Contents.IsOrderly.count_names h, if_pos hsome]
    exact Nat.one_pos
  · rw [hready]
    exact decide_eq_true hdue

/-- A pull that may return all messages that are due returns them. -/
theorem IsOrderly.mem_pulled_iff (h : q.IsOrderly site) {limit : Int} {sent : List Message}
    (hpulls : ((q.ledger site).release site.2.network.now).Pulls site.2.network.now limit sent)
    (hlimit : (q.due site).length ≤ limit) {m : Message} : m ∈ sent ↔
      (q.ledger site).release site.2.network.now m.id = some (.ready m) ∧
        m.available ≤ site.2.network.now := by
  refine ⟨hpulls.held m, fun ⟨hready, hdue⟩ => Decidable.byContradiction fun hleft => ?_⟩
  have hfull := (hpulls.full m.id m hready hdue).resolve_left hleft
  -- with the message that was left, more would be due than there are
  have hnew : m.id ∉ sent.map (·.id) := fun hid => by
    obtain ⟨other, hother, hname⟩ := List.mem_map.mp hid
    have hheld := (hpulls.held other hother).1
    rw [hname, hready] at hheld
    cases hheld
    exact hleft hother
  have hall : m.id :: sent.map (·.id) ⊆ q.due site := by
    refine List.cons_subset.mpr ⟨h.mem_due hready hdue, fun id hid => ?_⟩
    obtain ⟨other, hother, rfl⟩ := List.mem_map.mp hid
    exact h.mem_due (hpulls.held other hother).1 (hpulls.held other hother).2
  have hlength := (List.subperm_of_subset (List.nodup_cons.mpr ⟨hnew, hpulls.nodup⟩) hall).length_le
  rw [List.length_cons, List.length_map] at hlength
  omega

theorem Ledger.sendAll_congr {L : Ledger} {ids ids' : List String} (h : ∀ id, id ∈ ids ↔ id ∈ ids')
    (visibleAt : Float) : L.sendAll ids visibleAt = L.sendAll ids' visibleAt :=
  funext fun id => if_congr (h id) rfl rfl

/-! ## The same answers -/

/-- The same answer, up to the order of messages. -/
def Answer.IsLike : Answer → Answer → Prop
  | .messages ms, .messages ms' => ms.Perm ms'
  | a, a' => a = a'

/-- The same was asked at the same time, and the answers are the same, up to the order of messages. -/
def Event.IsLike (e e' : Event) : Prop :=
  e.request = e'.request ∧ e.time = e'.time ∧
    match e.answer, e'.answer with
    | .ok a, .ok a' => a.IsLike a'
    | .error f, .error f' => f = f'
    | _, _ => False

/-- Messages are not counted, and a pull may return all that are due. In memory, but not on a server, counting
makes those messages ready whose time in flight is over, and these could no longer be acknowledged. -/
def Drains (q : Queue) (site : Site) : Request → Prop
  | .pull options => (q.due site).length ≤ options.limit
  | .info => False
  | _ => True

/-- Two queues were empty at the same time, and the same has been asked of them. -/
inductive Parallel (q r : Queue) : List Event → List Event → Site → Site → Prop
  | start {site site' : Site} (h : (q.contents site).IsEmpty) (h' : (r.contents site').IsEmpty)
      (hstanding : site.2.network.standing = site'.2.network.standing) : Parallel q r [] [] site site'
  | step {history history' : List Event} {site site' : Site} (h : Parallel q r history history' site site')
      {x : Request} (hx : q.Admits site.2.network.now x) (hx' : r.Admits site'.2.network.now x)
      (hdrains : q.Drains site x) :
      Parallel q r (⟨x, site.2.network.now, ((q.perform x).outcome site).1⟩ :: history)
        (⟨x, site'.2.network.now, ((r.perform x).outcome site').1⟩ :: history')
        ((q.perform x).outcome site).2 ((r.perform x).outcome site').2

variable {history history' : List Event} {site' : Site}

theorem Parallel.reaches (h : Parallel q r history history' site site') :
    q.Reaches history site ∧ r.Reaches history' site' := by
  induction h with
  | start h h' _ => exact ⟨.start h, .start h'⟩
  | step _ hx hx' _ ih => exact ⟨ih.1.step hx, ih.2.step hx'⟩

/-- Two queues hold the same, at the same time and with as many names given. -/
structure IsLevel (q r : Queue) (site site' : Site) : Prop where
  ledger : q.ledger site = r.ledger site'
  standing : site.2.network.standing = site'.2.network.standing

/-- Whatever is asked of two queues that hold the same, they answer the same and go on to hold the same. -/
theorem IsLevel.step (h : IsLevel q r site site') (hq : q.isReachable = true) (hr : r.isReachable = true)
    (hhidden : q.hidden = r.hidden) (haccounts : q.Accounts history site)
    (haccounts' : r.Accounts history' site') {x : Request} (hx : q.Admits site.2.network.now x)
    (hx' : r.Admits site'.2.network.now x) (hdrains : q.Drains site x) :
    Event.IsLike ⟨x, site.2.network.now, ((q.perform x).outcome site).1⟩
        ⟨x, site'.2.network.now, ((r.perform x).outcome site').1⟩ ∧
      IsLevel q r ((q.perform x).outcome site).2 ((r.perform x).outcome site').2 := by
  have hnow : site'.2.network.now = site.2.network.now := congrArg Prod.fst h.standing.symm
  have hissued : site'.2.network.issued = site.2.network.issued := congrArg Prod.snd h.standing.symm
  cases x with
  | put way value metadata options =>
      obtain ⟨after, hput, -, hledger, hstanding⟩ := haccounts.outcome_put hq hx
      obtain ⟨after', hput', -, hledger', hstanding'⟩ := haccounts'.outcome_put hr hx'
      rw [newMessage_congr h.standing.symm] at hput' hledger'
      simp only [perform, outcome_map, hput, hput']
      refine ⟨⟨rfl, hnow.symm, rfl⟩, ⟨?_, ?_⟩⟩
      · rw [hledger, hledger', h.ledger]
      · rw [hstanding, hstanding', hnow, hissued]
  | pull options =>
      obtain ⟨sent, after, hpull, -, hpulls, hledger, hstanding⟩ :=
        outcome_pull_ledger hq haccounts.orderly options
      obtain ⟨sent', after', hpull', -, hpulls', hledger', hstanding'⟩ :=
        outcome_pull_ledger hr haccounts'.orderly options
      rw [hnow, ← h.ledger] at hpulls' hledger'
      have hsame (m : Message) : m ∈ sent ↔ m ∈ sent' :=
        (haccounts.orderly.mem_pulled_iff hpulls hdrains).trans
          (haccounts.orderly.mem_pulled_iff hpulls' hdrains).symm
      have hperm : sent.Perm sent' :=
        (List.perm_ext_iff_of_nodup (.of_map _ hpulls.nodup) (.of_map _ hpulls'.nodup)).mpr hsame
      simp only [perform, outcome_map, hpull, hpull']
      refine ⟨⟨rfl, hnow.symm, hperm.map _⟩, ⟨?_, ?_⟩⟩
      · rw [hledger, hledger', hhidden]
        exact Ledger.sendAll_congr (fun id => (hperm.map _).mem_iff) _
      · rw [hstanding, hstanding', h.standing]
  | ack way id =>
      obtain ⟨answer, after, hack, -, hstanding, hledger⟩ :=
        outcome_ack_ledger hq haccounts.orderly way id
      obtain ⟨answer', after', hack', -, hstanding', hledger'⟩ :=
        outcome_ack_ledger hr haccounts'.orderly way id
      rw [← h.ledger] at hledger'
      simp only [perform, outcome_map, hack, hack']
      have hstill : after.2.network.standing = after'.2.network.standing := by
        rw [hstanding, hstanding', h.standing]
      rcases hledger with ⟨hheld, rfl, hledger⟩ | ⟨hheld, rfl, hledger⟩ <;>
        rcases hledger' with ⟨hheld', rfl, hledger'⟩ | ⟨hheld', rfl, hledger'⟩
      · exact ⟨⟨rfl, hnow.symm, rfl⟩, hledger.trans hledger'.symm, hstill⟩
      · exact absurd hheld hheld'
      · exact absurd hheld' hheld
      · exact ⟨⟨rfl, hnow.symm, rfl⟩, hledger.trans hledger'.symm, hstill⟩
  | info => exact hdrains.elim
  | purge =>
      obtain ⟨after, hpurge, hempty, hstanding⟩ := outcome_purge_ledger hq site
      obtain ⟨after', hpurge', hempty', hstanding'⟩ := outcome_purge_ledger hr site'
      simp only [perform, outcome_map, hpurge, hpurge']
      refine ⟨⟨rfl, hnow.symm, rfl⟩, hempty.ledger_eq.trans hempty'.ledger_eq.symm, ?_⟩
      rw [hstanding, hstanding', h.standing]
  | wait seconds =>
      simp only [perform, outcome_make]
      refine ⟨⟨rfl, hnow.symm, rfl⟩, h.ledger, ?_⟩
      show (site.2.network.now + seconds, site.2.network.issued) =
        (site'.2.network.now + seconds, site'.2.network.issued)
      rw [hnow, hissued]

end FactIndex.Queue
