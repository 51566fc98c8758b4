import FactIndex.Proofs.Update.Timeline

/-!
# The course of a job

A job that was put off is carried by one message at a time. When the message is run the job is put back, for
later and under a new name, or it is over. So the messages of a job follow each other, and each of them says
how often the job has been put back since the last rebuild, and when it was put back first; the rest of it
is as it was in the beginning.

## Main definitions

* `Round`, `Course`: the runs of the messages of a job, and what each of them came to.
* `World.course`: the course of a job through what happens.
* `Course.Fits`: the course is that of a job, and its last message is the only one that the queue holds.
* `Course.IsOrderly`: how often, when and with what a job is put back.
* `WriteCall.isOrderly_course`: the course of every write that was put off is orderly.
-/

namespace FactIndex

open FactIndex.Effect FactIndex.KeyValue

variable {σ : Type} {d : Deployment σ} {w w' : World σ}

/-! ## Courses -/

/-- A run of a message of a job. -/
structure Round where
  time : Float
  /-- Whether a rebuild was going on. -/
  isLocked : Bool
  answer : Except Failure (Option JobStatus)
  /-- What the queue held before, and after. -/
  before : String → Option Load
  after : String → Option Load
  /-- The message that the queue holds in its stead: its name, and what it carries. -/
  next : Option (String × Load)

/-- The run of a message from one world to another. -/
def Round.between (d : Deployment σ) (w : World σ) (isLocked : Bool)
    (answer : Except Failure (Option JobStatus)) (after : World σ) : Round where
  time := w.host.network.now
  isLocked
  answer
  before := w.load? d
  after := after.load? d
  next := (after.load? d w.nextName).map (w.nextName, ·)

/-- The course of a job. -/
structure Course where
  /-- The message with which the job was put off: its name, and what it carries. -/
  first : String × Load
  /-- The runs of its messages, the last one first. -/
  rounds : List Round := []
  /-- When the last message was handed out first, if it was. -/
  seen : Option Float := none

namespace Course

/-- The last message, unless the job is over. -/
def current (c : Course) : Option (String × Load) :=
  match c.rounds with
  | [] => some c.first
  | r :: _ => r.next

/-- The names of all messages of the job. -/
def names (c : Course) : List String := c.first.1 :: (c.rounds.filterMap (·.next)).map (·.1)

/-- Notes that messages have been handed out. -/
def hand (w : World σ) (ms : List Message) (c : Course) : Course :=
  match c.seen, c.current with
  | none, some (name, _) => if name ∈ ms.map (·.id) then { c with seen := some w.host.network.now } else c
  | _, _ => c

/-- Notes that a message is run. -/
def note (d : Deployment σ) (w : World σ) (m : Message) (c : Course) : Course :=
  if c.current.map (·.1) = some m.id then
    let (answer, after) := (d.runMessage m).outcome w
    let locked := ((d.isLocked IndexType.data).outcome w).1.toOption.getD false
    { c with rounds := .between d w locked answer after :: c.rounds, seen := none }
  else c

end Course

/-- The course of a job through what happens. -/
def World.course (d : Deployment σ) (w : World σ) (c : Course) : List (Event σ) → Course
  | [] => c
  | e :: rest => World.course d (e.after d w) (e.noting d Course.hand (Course.note d) w c) rest

/-! ## What a message of a course carries -/

namespace Job

/-- The job that the last message carries, if it has been put back in every round. -/
def after (job : Job) : List Round → Job
  | [] => job
  | r :: earlier => (Deployment.resumed r.isLocked (job.after earlier)).again r.time

/-- How often a job has been put back since the last rebuild. -/
def putBack : List Round → Int
  | [] => 0
  | r :: earlier => (if r.isLocked then 0 else putBack earlier) + 1

theorem putBack_of_free {rounds : List Round} (h : ∀ r ∈ rounds, r.isLocked = false) :
    putBack rounds = rounds.length := by
  induction rounds with
  | nil => rfl
  | cons r earlier ih =>
      rw [putBack, h r List.mem_cons_self, ih fun r hr => h r (List.mem_cons_of_mem _ hr)]
      simp

theorem putBack_nonneg (rounds : List Round) : 0 ≤ putBack rounds := by
  induction rounds with
  | nil => exact Int.le_refl _
  | cons r earlier ih =>
      rw [putBack]
      split <;> omega

/-- Nothing changes along a course but how often the job has been put back, and when that was first. -/
theorem after_eq {job : Job} (hretries : job.retries = 0) (hcreated : job.createdAt = none)
    {rounds : List Round} (hbegun : ∀ r ∈ rounds, 0 < r.time) :
    job.after rounds =
      { job with retries := putBack rounds, createdAt := rounds.getLast?.map (·.time) } := by
  induction rounds with
  | nil => rw [after, putBack, ← hretries, List.getLast?_nil, Option.map_none, ← hcreated]
  | cons r earlier ih =>
      rw [after, ih fun r hr => hbegun r (List.mem_cons_of_mem _ hr), List.getLast?_cons, putBack]
      have hagain : ∀ last, earlier.getLast? = some last → (last.time == 0) = false := fun last hlast =>
        Decimal.beq_zero_of_pos (hbegun last (List.mem_cons_of_mem _ (List.mem_of_getLast? hlast)))
      cases hlast : earlier.getLast? with
      | none => cases r.isLocked <;> rfl
      | some last =>
          cases r.isLocked <;>
            simp [Deployment.resumed, unspent, again, hagain last hlast]

end Job

/-! ## Rounds -/

/-- A round of a job after earlier ones: the job has been put back in all of these; now it is put back once
more, or it is over. -/
structure Round.Follows (d : Deployment σ) (job : Job) (earlier : List Round) (r : Round) : Prop where
  previous : ∀ last ∈ earlier.head?, last.next.isSome
  alone : ∀ id, r.after id ≠ none → r.before id = none → r.next.map (·.1) = some id
  next :
    let resumed := Deployment.resumed r.isLocked (job.after earlier)
    match r.answer with
    | .ok (some .requeued) => resumed.retries < d.settings.retry.retries ∧ ∃ name, r.next =
        some (name, ⟨(resumed.again r.time).toMessage, r.time,
          r.time + d.settings.retry.delaySeconds⟩)
    | .ok (some .givenUp) => d.settings.retry.retries ≤ resumed.retries ∧ r.next = none
    | _ => r.next = none

/-- A job of which there is a next message carries what it has become. -/
theorem Round.Follows.value {job : Job} {earlier : List Round} {r : Round} (h : r.Follows d job earlier)
    {name : String} {l : Load} (hnext : r.next = some (name, l)) :
    l.value = (job.after (r :: earlier)).toMessage := by
  have hcases := h.next
  dsimp only at hcases
  split at hcases
  · obtain ⟨-, other, hsome⟩ := hcases
    cases hnext.symm.trans hsome
    rfl
  · cases hnext.symm.trans hcases.2
  · cases hnext.symm.trans hcases

namespace Course

/-- The rounds of a job follow one another. -/
def Follows (d : Deployment σ) (job : Job) : List Round → Prop
  | [] => True
  | r :: earlier => Follows d job earlier ∧ r.Follows d job earlier

/-- The course is that of a job. The queue holds its last message, and no other one of it. -/
structure Fits (d : Deployment σ) (job : Job) (c : Course) (w : World σ) : Prop where
  first : c.first.2.value = job.toMessage
  follows : Follows d job c.rounds
  begun : ∀ r ∈ c.rounds, 0 < r.time
  named : ∀ name ∈ c.names, ∃ k ≤ w.host.network.issued, name = Network.nameOf k
  held : ∀ name ∈ c.names, w.load? d name =
    if c.current.map (·.1) = some name then c.current.map (·.2) else none
  waits : ∀ name l, c.current = some (name, l) →
    match c.seen with
    | none => w.waits? d name = some l.available
    | some t => l.available ≤ t

variable {job : Job} {c : Course}

theorem mem_names_of_current {name : String} {l : Load} (h : c.current = some (name, l)) :
    name ∈ c.names := by
  unfold current at h
  cases hrounds : c.rounds with
  | nil =>
      rw [hrounds] at h
      exact List.mem_cons.mpr (.inl (congrArg Prod.fst (Option.some.inj h)).symm)
  | cons r earlier =>
      rw [hrounds] at h
      refine List.mem_cons_of_mem _ (List.mem_map.mpr ⟨(name, l), ?_, rfl⟩)
      rw [hrounds]
      exact List.mem_filterMap.mpr ⟨r, List.mem_cons_self, h⟩

/-- The last message carries the job as it has become. -/
theorem Fits.value_of_current (h : c.Fits d job w) {name : String} {l : Load}
    (hcurrent : c.current = some (name, l)) : l.value = (job.after c.rounds).toMessage := by
  have hfollows := h.follows
  unfold current at hcurrent
  cases hrounds : c.rounds with
  | nil =>
      rw [hrounds] at hcurrent
      have hfirst : c.first = (name, l) := Option.some.inj hcurrent
      exact (congrArg (fun m : String × Load => m.2.value) hfirst).symm.trans h.first
  | cons r earlier =>
      rw [hrounds] at hcurrent hfollows
      exact hfollows.2.value hcurrent

theorem Fits.congr (h : c.Fits d job w) (hissued : w.host.network.issued ≤ w'.host.network.issued)
    (hload : ∀ name ∈ c.names, w'.load? d name = w.load? d name)
    (hwaits : ∀ name ∈ c.names, w'.waits? d name = w.waits? d name) : c.Fits d job w' where
  first := h.first
  follows := h.follows
  begun := h.begun
  named name hname := by
    obtain ⟨k, hk, heq⟩ := h.named name hname
    exact ⟨k, hk.trans hissued, heq⟩
  held name hname := (hload name hname).trans (h.held name hname)
  waits name l hcurrent := by
    have hold := h.waits name l hcurrent
    rwa [← hwaits name (mem_names_of_current hcurrent)] at hold

theorem Fits.of_bearing (h : c.Fits d job w) (heq : w'.bearing d = w.bearing d) : c.Fits d job w' := by
  simp only [World.bearing, Prod.mk.injEq] at heq
  refine h.congr (congrArg Prod.snd heq.2.2).ge (fun name _ => ?_) fun name _ => ?_
  · exact congrArg (Queue.Contents.load? · name) heq.1
  · exact congrArg (Queue.Contents.waits? · name) heq.1

/-- A name that is given next is none of the names of the course. -/
theorem Fits.nextName_ne (h : c.Fits d job w) {name : String} (hname : name ∈ c.names) :
    w.nextName ≠ name := by
  obtain ⟨k, hk, rfl⟩ := h.named name hname
  intro heq
  have hsame := Network.nameOf_injective heq
  omega

/-- The queue holds no message of the course but the last one. -/
theorem Fits.load?_of_not_current (h : c.Fits d job w) {name : String} (hname : name ∈ c.names)
    (hnot : c.current.map (·.1) ≠ some name) : w.load? d name = none := by
  rw [h.held name hname, if_neg hnot]

theorem Fits.load?_of_current (h : c.Fits d job w) {name : String} {l : Load}
    (hcurrent : c.current = some (name, l)) : w.load? d name = some l := by
  rw [h.held name (mem_names_of_current hcurrent), hcurrent]
  exact if_pos rfl

/-- A job of which no message has been run yet. -/
theorem fits_first (hw : w.IsSteady d) {name : String} {l : Load} (hvalue : l.value = job.toMessage)
    (hheld : w.load? d name = some l) (hwaits : w.waits? d name = some l.available) :
    Fits d job { first := (name, l) } w where
  first := hvalue
  follows := trivial
  begun := nofun
  named other hother := by
    rw [List.mem_singleton.mp hother]
    exact hw.named _ (by simp [hheld])
  held other hother := by
    rw [List.mem_singleton.mp hother]
    exact hheld.trans (if_pos rfl).symm
  waits other l' hcurrent := by
    cases hcurrent
    exact hwaits

/-! ## What every step of a course keeps -/

/-- Other jobs that are put off do not touch the course. -/
theorem Fits.puts (h : c.Fits d job w) (hw : w.IsGoing d) {call : WriteCall} {r : Except Failure Bool}
    (hputs : d.Puts w (call.job d) r w') : c.Fits d job w' := by
  unfold Deployment.Puts at hputs
  split at hputs
  · obtain ⟨-, hload, hwaits⟩ := hw.adds hputs
    have hissued : w'.host.network.issued = w.host.network.issued + 1 :=
      congrArg (fun bearing : Queue.Contents × Bool × Float × Nat => bearing.2.2.2) hputs
    refine h.congr (by omega) (fun name hname => ?_) fun name hname => ?_
    · rw [hload, if_neg (h.nextName_ne hname)]
    · rw [hwaits, if_neg (h.nextName_ne hname)]
  · exact h.of_bearing hputs

/-- A pull changes nothing but that it may hand out the last message. -/
theorem Fits.pulls (h : c.Fits d job w) {count : Int} {ms : List Message} {pulled : World σ}
    (hpulls : d.Pulls w count ms pulled) : (c.hand w ms).Fits d job pulled := by
  have hissued : pulled.host.network.issued = w.host.network.issued := congrArg Prod.snd hpulls.standing
  have hstill : ∀ seen : Option Float, (∀ name l, c.current = some (name, l) →
      match seen with
      | none => pulled.waits? d name = some l.available
      | some t => l.available ≤ t) → Fits d job { c with seen } pulled := fun seen hwaits =>
    { first := h.first
      follows := h.follows
      begun := h.begun
      named := fun name hname => hissued ▸ h.named name hname
      held := fun name hname => (congrFun hpulls.load? name).trans (h.held name hname)
      waits := hwaits }
  unfold hand
  split
  · rename_i name l hseen hcurrent
    have hwaits := h.waits name l hcurrent
    rw [hseen] at hwaits
    split
    · rename_i hin
      refine hstill (some w.host.network.now) fun name' l' hother => ?_
      cases hcurrent.symm.trans hother
      exact hpulls.handed name l.available hwaits hin
    · rename_i hnot
      refine hstill c.seen fun name' l' hother => ?_
      cases hcurrent.symm.trans hother
      rw [hseen]
      exact (hpulls.left name l.available hwaits hnot).1
  · rename_i hneither
    refine hstill c.seen fun name l hcurrent => ?_
    have hwaits := h.waits name l hcurrent
    cases hseen : c.seen with
    | none => exact absurd hcurrent (hneither name l hseen)
    | some t =>
        rw [hseen] at hwaits
        exact hwaits

theorem isSome_of_current {m : String × Load} (h : c.current = some m) :
    ∀ last ∈ c.rounds.head?, last.next.isSome := by
  intro last hlast
  obtain ⟨earlier, hrounds⟩ := List.head?_eq_some_iff.mp hlast
  have hnext : last.next = some m := by
    rw [← h, current, hrounds]
  rw [hnext]
  rfl

/-- The next message of a round is held under the name that is given next. -/
theorem next_between {locked : Bool} {r : Except Failure (Option JobStatus)} {after : World σ} {name : String}
    {l : Load} (h : (Round.between d w locked r after).next = some (name, l)) :
    name = w.nextName ∧ after.load? d w.nextName = some l := by
  obtain ⟨next, hnext, heq⟩ := Option.map_eq_some_iff.mp h
  cases heq
  exact ⟨rfl, hnext⟩

/-- The round in which the last message is run. -/
theorem Fits.between_follows (h : c.Fits d job w) (hw : w.IsGoing d) {m : Message} {locked : Bool} {l : Load}
    (hcurrent : c.current = some (m.id, l)) {r : Except Failure (Option JobStatus)} {after : World σ}
    (hends : d.Ends w m (Deployment.resumed locked (job.after c.rounds)) r after) :
    (Round.between d w locked r after).Follows d job c.rounds := by
  have hfresh : w.nextName ≠ m.id := h.nextName_ne (mem_names_of_current hcurrent)
  have hdropped : d.Drops w m after → (Round.between d w locked r after).next = none := fun hdrops => by
    have hnone : after.load? d w.nextName = none := by
      rw [hdrops.load?, if_neg hfresh.symm]
      exact hw.steady.load?_nextName
    exact congrArg (Option.map _) hnone
  refine ⟨isSome_of_current hcurrent, fun id hthere hnew => ?_, ?_⟩
  · have hname : id = w.nextName := by
      by_contra hne
      exact hends.spares.held id hne hthere hnew
    obtain ⟨next, hnext⟩ := Option.ne_none_iff_exists'.mp hthere
    exact hname ▸ congrArg (fun held => (held.map (w.nextName, ·)).map (·.1)) (hname ▸ hnext)
  · have hcourse := hends.course
    rcases r with e | _ | status
    · exact hdropped hcourse
    · exact hdropped hcourse
    · cases status with
      | requeued =>
          have hnext : after.load? d w.nextName = _ := (hcourse.load? w.nextName).trans (if_pos rfl)
          exact ⟨hcourse.room, w.nextName, congrArg (Option.map _) hnext⟩
      | givenUp => exact ⟨hcourse.1, hdropped hcourse.2⟩
      | _ => exact hdropped hcourse

/-- A message that is put back can be seen after the delay. -/
theorem waits?_of_ends (hs : w.IsSteady d) {m : Message} (hfresh : w.nextName ≠ m.id) {carried : Job}
    {r : Except Failure (Option JobStatus)} {after : World σ} (hends : d.Ends w m carried r after) {l : Load}
    (hnext : after.load? d w.nextName = some l) : after.waits? d w.nextName = some l.available := by
  have hdropped : ¬ d.Drops w m after := by
    intro hdrops
    rw [hdrops.load?, if_neg hfresh.symm, show w.load? d w.nextName = none from hs.load?_nextName] at hnext
    cases hnext
  obtain ⟨-, hcourse⟩ := hends
  split at hcourse
  · rw [hcourse.load?, if_pos rfl] at hnext
    rw [hcourse.waits?, if_pos rfl]
    exact Option.some.inj hnext ▸ rfl
  · exact absurd hcourse.2 hdropped
  · exact absurd hcourse hdropped

/-- The last message has been run: its round is added. -/
theorem Fits.ends_current (h : c.Fits d job w) (hw : w.IsGoing d) {m : Message} {carried : Job}
    {locked : Bool} (hvalue : m.value = carried.toMessage) {l : Load} (hcurrent : c.current = some (m.id, l))
    (hheld : w.load? d m.id = some m.load) {r : Except Failure (Option JobStatus)} {after : World σ}
    (hends : d.Ends w m (Deployment.resumed locked carried) r after) :
    Fits d job { c with rounds := .between d w locked r after :: c.rounds, seen := none } after := by
  have hload : l = m.load := Option.some.inj ((h.load?_of_current hcurrent).symm.trans hheld)
  have hcarried : carried = job.after c.rounds := by
    refine Job.toMessage_injective (hvalue.symm.trans ?_)
    rw [← h.value_of_current hcurrent, hload]
    rfl
  have hspares := hends.spares
  have hfresh : w.nextName ≠ m.id := h.nextName_ne (mem_names_of_current hcurrent)
  have hnames : ∀ name ∈ names { c with rounds := .between d w locked r after :: c.rounds, seen := none },
      name ∈ c.names ∨ ∃ l, (Round.between d w locked r after).next = some (name, l) := by
    intro name hname
    rcases List.mem_cons.mp hname with hfirst | hlater
    · exact .inl (List.mem_cons.mpr (.inl hfirst))
    · obtain ⟨⟨_, l⟩, hmem, rfl⟩ := List.mem_map.mp hlater
      obtain ⟨round, hround, hnext⟩ := List.mem_filterMap.mp hmem
      rcases List.mem_cons.mp hround with rfl | hround
      · exact .inr ⟨l, hnext⟩
      · exact .inl (List.mem_cons_of_mem _ (List.mem_map_of_mem (List.mem_filterMap.mpr ⟨_, hround, hnext⟩)))
  refine ⟨h.first, ⟨h.follows, h.between_follows hw hcurrent (hcarried ▸ hends)⟩,
    List.forall_mem_cons.mpr ⟨hw.begun, h.begun⟩, fun name hname => ?_, fun name hname => ?_,
    fun name next hnext => ?_⟩
  · rcases hnames name hname with hold | ⟨l, hnext⟩
    · obtain ⟨k, hk, heq⟩ := h.named name hold
      exact ⟨k, hk.trans hspares.issued, heq⟩
    · obtain ⟨rfl, hput⟩ := next_between hnext
      exact hends.steady.named _ (by simp [hput])
  · show after.load? d name = if (Round.between d w locked r after).next.map (·.1) = some name then
      (Round.between d w locked r after).next.map (·.2) else none
    by_cases hnext : (Round.between d w locked r after).next.map (·.1) = some name
    · obtain ⟨⟨_, l⟩, hsome, rfl⟩ := Option.map_eq_some_iff.mp hnext
      obtain ⟨rfl, hheld⟩ := next_between hsome
      rw [if_pos hnext, hsome]
      exact hheld
    · have hold := (hnames name hname).resolve_right fun ⟨l, hsome⟩ => hnext (congrArg _ hsome)
      have hnew := (h.nextName_ne hold).symm
      rw [if_neg hnext]
      by_cases hname : name = m.id
      · exact hname ▸ hspares.gone hfresh.symm
      · rw [hspares.load? name hnew hname]
        refine h.load?_of_not_current hold fun hsome => hname ?_
        rw [hcurrent] at hsome
        exact (Option.some.inj hsome).symm
  · obtain ⟨rfl, hput⟩ := next_between hnext
    exact waits?_of_ends hw.steady hfresh hends hput

/-- A round more, if the last message is run. -/
theorem Fits.ends (h : c.Fits d job w) (hw : w.IsGoing d) {m : Message} {carried : Job} {locked : Bool}
    (hvalue : m.value = carried.toMessage) (hheld : w.load? d m.id = some m.load)
    (hlocked : ((d.isLocked IndexType.data).outcome w).1 = .ok locked)
    {r : Except Failure (Option JobStatus)} {after : World σ} (hrun : (d.runMessage m).outcome w = (r, after))
    (hends : d.Ends w m (Deployment.resumed locked carried) r after) :
    (c.note d w m).Fits d job after := by
  unfold note
  split
  · rename_i hcurrent
    obtain ⟨⟨name, l⟩, hcurrent, rfl⟩ := Option.map_eq_some_iff.mp hcurrent
    rw [hrun, hlocked]
    exact h.ends_current hw hvalue hcurrent hheld hends
  · rename_i hnot
    have hne : ∀ name ∈ c.names, name ≠ m.id := by
      rintro name hname rfl
      cases hheld.symm.trans (h.load?_of_not_current hname hnot)
    refine h.congr hends.spares.issued (fun name hname => ?_) fun name hname => ?_
    · exact hends.spares.load? name (h.nextName_ne hname).symm (hne name hname)
    · exact hends.spares.waits? name (h.nextName_ne hname).symm

/-- Whatever happens, the course is that of the job. -/
theorem Fits.after (h : c.Fits d job w) (hw : w.IsGoing d) (hdefer : d.isDeferring = true)
    (hcache : d.cache.IsUsable .waiting d.settings.retry.changesLifetimeSeconds) (e : Event σ) :
    (e.noting d hand (note d) w c).Fits d job (e.after d w) := by
  cases e with
  | write call => exact h.puts hw (Event.after_write hw hdefer hcache call)
  | run count =>
      have hrun := Event.after_run_noting (h := hand) (f := note d) (P := fun w c => c.Fits d job w)
        (fun w => Cache.isConnected_of_isUsable hcache _) (fun _ _ _ _ _ _ hfits hpulls => hfits.pulls hpulls)
        (fun _ _ _ _ _ hgoing hfits hvalue hheld hlocked _ _ hrun hends _ =>
          hfits.ends hgoing hvalue hheld hlocked hrun hends) hw h count
      exact hrun.2
  | wait seconds => exact h.congr (Nat.le_refl _) (fun _ _ => rfl) fun _ _ => rfl
  | turn change => exact h.of_bearing rfl
  | lock version => exact h.of_bearing (Deployment.leaves_bearing_put _ _ _ w)
  | unlock => exact h.of_bearing (Deployment.leaves_bearing_releaseLock w)

/-- Whatever has happened, the course is that of the job. -/
theorem Fits.later (hdefer : d.isDeferring = true)
    (hcache : d.cache.IsUsable .waiting d.settings.retry.changesLifetimeSeconds) {events : List (Event σ)}
    (hw : w.IsGoing d) (hfair : w.IsFair d events) (h : c.Fits d job w) :
    (w.course d c events).Fits d job (w.later d events) := by
  induction events generalizing w c with
  | nil => exact h
  | cons e rest ih =>
      exact ih (hw.after hdefer hcache hfair.1) hfair.2 (h.after hw hdefer hcache e)

end Course

/-! ## How often, when and with what a job is put back -/

/-- Whether the job has been put back. -/
def Round.isPutBack (r : Round) : Bool :=
  match r.answer with
  | .ok (some .requeued) => true
  | _ => false

/-- A round after the rounds before it: these have all put the job back. If this one does, then with one more
retry, for later, and otherwise as the job was; and nothing else is put into the queue. The job is given up
only when it has been put back as often as is allowed. -/
structure Round.IsOrderly (d : Deployment σ) (job : Job) (earlier : List Round) (r : Round) : Prop where
  previous : ∀ before ∈ earlier, before.isPutBack = true
  next : if r.isPutBack then
      ∃ (name : String) (retries : Int),
        r.next = some (name,
          { value := { job with
              retries
              createdAt := (r :: earlier).getLast?.map Round.time }.toMessage
            enqueued := r.time
            available := r.time + d.settings.retry.delaySeconds }) ∧
        0 < retries ∧ retries ≤ d.settings.retry.retries ∧ (r.isLocked = true → retries = 1) ∧
        ((∀ round ∈ r :: earlier, round.isLocked = false) → retries = earlier.length + 1)
    else r.next = none
  alone : ∀ id, r.after id ≠ none → r.before id = none → r.next.map (·.1) = some id
  givenUp : r.answer = .ok (some .givenUp) →
    (0 < d.settings.retry.retries → r.isLocked = false) ∧
      ((∀ round ∈ r :: earlier, round.isLocked = false) → earlier.length = d.settings.retry.retries)

/-- A round of which there is a next message has put the job back. -/
theorem Round.Follows.isPutBack {job : Job} {earlier : List Round} {r : Round} (h : r.Follows d job earlier)
    (hnext : r.next.isSome) : r.isPutBack = true := by
  have hcases := h.next
  dsimp only at hcases
  unfold Round.isPutBack
  split at hcases
  · rename_i hanswer
    rw [hanswer]
  · simp [hcases.2] at hnext
  · simp [hcases] at hnext

namespace Course

variable {job : Job} {c : Course}

theorem Follows.split {later earlier : List Round} {r : Round}
    (h : Follows d job (later ++ r :: earlier)) : Follows d job earlier ∧ r.Follows d job earlier := by
  induction later with
  | nil => exact h
  | cons _ rest ih => exact ih h.1

/-- Before a next message there have only been rounds that put the job back. -/
theorem Follows.isPutBack {rounds : List Round} (h : Follows d job rounds)
    (hnext : ∀ last ∈ rounds.head?, last.next.isSome) : ∀ r ∈ rounds, r.isPutBack = true := by
  induction rounds with
  | nil => exact nofun
  | cons r earlier ih =>
      refine List.forall_mem_cons.mpr ⟨h.2.isPutBack (hnext r rfl), ih h.1 h.2.previous⟩

end Course

/-- How often the job that is run has been put back. -/
theorem Job.resumed_retries {job : Job} (hretries : job.retries = 0) (hcreated : job.createdAt = none)
    {rounds : List Round} (hbegun : ∀ r ∈ rounds, 0 < r.time) (locked : Bool) :
    (Deployment.resumed locked (job.after rounds)).retries = if locked then 0 else putBack rounds := by
  rw [Job.after_eq hretries hcreated hbegun]
  cases locked <;> rfl

/-- No job is put back more often than is allowed. -/
theorem Course.Follows.putBack_le {job : Job} {rounds : List Round} (h : Follows d job rounds)
    (hnext : ∀ last ∈ rounds.head?, last.next.isSome) (hretries : job.retries = 0)
    (hcreated : job.createdAt = none) (hbegun : ∀ round ∈ rounds, 0 < round.time)
    (hroom : 0 ≤ d.settings.retry.retries) : Job.putBack rounds ≤ d.settings.retry.retries := by
  cases rounds with
  | nil => exact hroom
  | cons r earlier =>
      have hcount := Job.resumed_retries hretries hcreated
        (fun round hround => hbegun round (List.mem_cons_of_mem _ hround)) r.isLocked
      have hsome := hnext r rfl
      have hcases := h.2.next
      dsimp only at hcases
      rw [hcount] at hcases
      split at hcases
      · rw [Job.putBack]
        omega
      · simp [hcases.2] at hsome
      · simp [hcases] at hsome

theorem Round.Follows.isOrderly {job : Job} {earlier : List Round} {r : Round} (h : r.Follows d job earlier)
    (hearlier : Course.Follows d job earlier) (hretries : job.retries = 0) (hcreated : job.createdAt = none)
    (hbegun : ∀ round ∈ r :: earlier, 0 < round.time) (hroom : 0 ≤ d.settings.retry.retries) :
    r.IsOrderly d job earlier := by
  have hbefore : ∀ round ∈ earlier, 0 < round.time := fun round hround =>
    hbegun round (List.mem_cons_of_mem _ hround)
  have hcount := Job.resumed_retries hretries hcreated hbefore r.isLocked
  have hnonneg := Job.putBack_nonneg earlier
  have hcases := h.next
  dsimp only at hcases
  refine ⟨hearlier.isPutBack h.previous, ?_, h.alone, fun hgiven => ?_⟩
  · cases hback : r.isPutBack with
    | true =>
        unfold Round.isPutBack at hback
        split at hback
        · rename_i hanswer
          simp only [hanswer] at hcases
          obtain ⟨hmore, name, hnext⟩ := hcases
          rw [hcount] at hmore
          refine ⟨name, Job.putBack (r :: earlier), ?_, ?_, ?_, fun hlocked => ?_, fun hfree => ?_⟩
          · rw [hnext, ← Job.after_eq hretries hcreated hbegun]
            rfl
          · rw [Job.putBack]
            split <;> omega
          · rw [Job.putBack]
            omega
          · rw [Job.putBack, if_pos hlocked]
            rfl
          · rw [Job.putBack_of_free hfree]
            rfl
        · cases hback
    | false =>
        show r.next = none
        rw [← Option.not_isSome_iff_eq_none]
        exact fun hsome => absurd (h.isPutBack hsome) (by simp [hback])
  · simp only [hgiven, hcount] at hcases
    refine ⟨fun hsome => ?_, fun hfree => ?_⟩
    · by_contra hlocked
      rw [Bool.not_eq_false] at hlocked
      rw [if_pos hlocked] at hcases
      omega
    · have hlength := Job.putBack_of_free fun round hround => hfree round (List.mem_cons_of_mem _ hround)
      have hmost := hearlier.putBack_le h.previous hretries hcreated hbefore hroom
      rw [hfree r List.mem_cons_self, if_neg Bool.false_ne_true] at hcases
      omega

/-- A course on which everything is in order, and a world that it has led to. -/
structure Course.IsOrderly (d : Deployment σ) (job : Job) (c : Course) (w : World σ) : Prop where
  first : c.first.2.value = { job with
    retries := 0
    createdAt := none }.toMessage
  rounds : ∀ later r earlier, c.rounds = later ++ r :: earlier → r.IsOrderly d job earlier
  /-- Without rebuilds a job is put back no more often than is allowed. -/
  budget : (∀ r ∈ c.rounds, r.isLocked = false) →
    (c.rounds.countP Round.isPutBack : Int) ≤ d.settings.retry.retries
  /-- At most one message of the job is held. -/
  held : ∀ name ∈ c.names, w.load? d name =
    if c.current.map (·.1) = some name then c.current.map (·.2) else none
  /-- The last message is handed out as soon as it can be seen, and not before. -/
  handed : ∀ name l, c.current = some (name, l) →
    match c.seen with
    | some t => l.available ≤ t
    | none => ∀ count ms pulled,
      (onQueue (d.queue.pull { count := some count })).outcome w = (.ok ms, pulled) →
        (name ∈ ms.map (·.id) → l.available ≤ w.host.network.now) ∧
        (l.available ≤ w.host.network.now → name ∈ ms.map (·.id) ∨ count ≤ ms.length)

namespace Course

variable {job : Job} {c : Course}

theorem Follows.isOrderly {rounds : List Round} (h : Follows d job rounds) (hretries : job.retries = 0)
    (hcreated : job.createdAt = none) (hbegun : ∀ r ∈ rounds, 0 < r.time)
    (hroom : 0 ≤ d.settings.retry.retries) {later earlier : List Round} {r : Round}
    (heq : rounds = later ++ r :: earlier) : r.IsOrderly d job earlier := by
  rw [heq] at h hbegun
  exact h.split.2.isOrderly h.split.1 hretries hcreated
    (fun round hround => hbegun round (List.mem_append_right _ hround)) hroom

/-- Without rebuilds no more rounds put the job back than is allowed. -/
theorem Follows.countP_le {rounds : List Round} (h : Follows d job rounds) (hretries : job.retries = 0)
    (hcreated : job.createdAt = none) (hbegun : ∀ r ∈ rounds, 0 < r.time)
    (hroom : 0 ≤ d.settings.retry.retries) (hfree : ∀ r ∈ rounds, r.isLocked = false) :
    (rounds.countP Round.isPutBack : Int) ≤ d.settings.retry.retries := by
  induction rounds with
  | nil => exact hroom
  | cons r earlier ih =>
      have heq : r :: earlier = [] ++ r :: earlier := rfl
      have hnext := (h.isOrderly hretries hcreated hbegun hroom heq).next
      by_cases hback : r.isPutBack = true
      · rw [if_pos hback] at hnext
        obtain ⟨name, retries, -, -, hmost, -, hcount⟩ := hnext
        have hfew := List.countP_le_length (p := Round.isPutBack) (l := earlier)
        rw [List.countP_cons_of_pos hback]
        have hexact := hcount hfree
        omega
      · rw [List.countP_cons_of_neg hback]
        exact ih h.1 (fun r hr => hbegun r (List.mem_cons_of_mem _ hr))
          fun r hr => hfree r (List.mem_cons_of_mem _ hr)

theorem Fits.isOrderly (h : c.Fits d job w) (hw : w.IsGoing d) (hretries : job.retries = 0)
    (hcreated : job.createdAt = none) (hroom : 0 ≤ d.settings.retry.retries) : c.IsOrderly d job w where
  first := by
    rw [h.first]
    cases job
    cases hretries
    cases hcreated
    rfl
  rounds later r earlier heq := h.follows.isOrderly hretries hcreated h.begun hroom heq
  budget hfree := h.follows.countP_le hretries hcreated h.begun hroom hfree
  held := h.held
  handed name l hcurrent := by
    have hwaits := h.waits name l hcurrent
    cases hseen : c.seen with
    | some t =>
        rw [hseen] at hwaits
        exact hwaits
    | none =>
        rw [hseen] at hwaits
        intro count ms pulled hpull
        obtain ⟨ms', pulled', hpulls⟩ := Deployment.exists_pulls hw.steady count
        cases hpull.symm.trans hpulls.outcome
        refine ⟨hpulls.handed name l.available hwaits, fun hseen => ?_⟩
        by_cases hin : name ∈ ms.map (·.id)
        · exact .inl hin
        · exact .inr ((hpulls.left name l.available hwaits hin).2 hseen)

end Course

namespace WriteCall

/-- A job that has been put off is put back no more often than is allowed, every time for later and with one
more retry, and given up only then; and never are there two messages of it. A rebuild starts the count anew,
and while it goes on no job is given up if any may be put back. -/
theorem isOrderly_course (hw : w.IsGoing d) (hdefer : d.isDeferring = true)
    (hcache : d.cache.IsUsable .waiting d.settings.retry.changesLifetimeSeconds)
    (hroom : 0 ≤ d.settings.retry.retries) {call : WriteCall} {off : World σ}
    (hoff : (call.run d).outcome w = (.ok false, off)) {events : List (Event σ)}
    (hfair : off.IsFair d events) : ∃ l, off.load? d w.nextName = some l ∧
      (off.course d { first := (w.nextName, l) } events).IsOrderly d (call.job d) (off.later d events) := by
  have hputs := (call.meets_run_puts hw.steady hdefer hcache).of_outcome hoff
  obtain ⟨hgoing, hload, hwaits⟩ := hw.adds hputs
  have hheld : off.load? d w.nextName = _ := (hload w.nextName).trans (if_pos rfl)
  refine ⟨_, hheld, ?_⟩
  have hfits : Course.Fits d (call.job d) { first := (w.nextName, _) } off :=
    Course.fits_first hgoing.steady rfl hheld ((hwaits w.nextName).trans (if_pos rfl))
  refine (hfits.later hdefer hcache hgoing hfair).isOrderly (hgoing.later hdefer hcache hfair) ?_ ?_ hroom
  · cases call <;> rfl
  · cases call <;> rfl

/-! ### A job that is put off and run while the search engine is still away -/

private def patientDeployment : Deployment Cluster where
  client := Cluster.client
  cache := {}
  queue := {}

private def mutedWorld : World Cluster where
  engine := { isAvailable := false }
  catalog := { next := 3 }

private def removal : WriteCall := .delete [7] false

private def laterRuns : List (Event Cluster) :=
  [.lock (.str "v2"), .wait 60, .run 1]

theorem isOrderly_course_removal : mutedWorld.IsGoing patientDeployment ∧
    (removal.run patientDeployment).outcome mutedWorld =
      (.ok false, ((removal.run patientDeployment).outcome mutedWorld).2) ∧
    ((removal.run patientDeployment).outcome mutedWorld).2.IsFair patientDeployment laterRuns ∧
    ∃ l, ((removal.run patientDeployment).outcome mutedWorld).2.load? patientDeployment mutedWorld.nextName =
        some l ∧
      (((removal.run patientDeployment).outcome mutedWorld).2.course patientDeployment
        { first := (mutedWorld.nextName, l) } laterRuns).IsOrderly patientDeployment
          (removal.job patientDeployment)
          (((removal.run patientDeployment).outcome mutedWorld).2.later patientDeployment laterRuns) := by
  have hgoing := (World.isGoing_of_empty (d := patientDeployment) (w := mutedWorld) rfl rfl
    (by decide +kernel)).1
  have hcache : patientDeployment.cache.IsUsable .waiting
      patientDeployment.settings.retry.changesLifetimeSeconds := nofun
  have hfair : ((removal.run patientDeployment).outcome mutedWorld).2.IsFair patientDeployment laterRuns := by
    refine ⟨trivial, ⟨?_, fun hserver => absurd rfl hserver⟩, trivial, trivial⟩
    decide +kernel
  exact ⟨hgoing, rfl, hfair, isOrderly_course hgoing rfl hcache (by decide) rfl hfair⟩

end WriteCall

end FactIndex
