import Outpost.Proofs.Proxy.Histories

/-!
# What caching tasks are at work on

A caching task works on the reply that its exchange was answered with, under the key of the request.
What it puts into a tier it has collected from that reply, and no one else changes the tiers or the
store.
-/

namespace Outpost.Proxy

open Api Cache Coding Config Http Store Outpost.Stream

/-- Bytes that may have been collected from a reply: a beginning of its body, or all that its body
decodes to. -/
inductive Drawn (reply : Reply) (payload : Bytes) : Prop where
  | plain (uncoded : declared? reply.headers = none) (isPrefix : payload <+: reply.body.bytes)
  | decoded (format : Format) (coded : declared? reply.headers = some format)
      (contents : decode format reply.body.bytes = .ok payload)

theorem Whole.drawn {reply : Reply} {payload : Bytes} (whole : Whole reply payload) :
    Drawn reply payload := by
  cases whole with
  | ended plain all ends => exact .plain plain (all ▸ List.prefix_rfl)
  | measured length plain measure reached isPrefix stalls => exact .plain plain isPrefix
  | decoded format coded contents => exact .decoded format coded contents

theorem Copying.drawn_of_finish {reply : Reply} {slot : Slot} {collector : Collector}
    {transcript : Transcript} {payload : Bytes} (h : Copying reply slot collector transcript)
    (finished : collector.finish = .ok payload) : Drawn reply payload := by
  unfold Collector.finish at finished
  split at finished
  · rename_i plain
    cases finished
    exact .plain (h.format ▸ plain) (h.received ▸ h.isPrefix)
  · cases finished

theorem isJson_of_treatment {tiers : Tiers} {info : RequestInfo} {status : StatusCode}
    {headers : Headers} {key : Key} (h : treatment tiers info status headers = .cache key) :
    isJson headers = true := by
  unfold treatment at h
  repeat' split at h
  all_goals simp_all

namespace Engine

section Tasks

variable {start : Engine} {events : List Event} {id : Nat} {request : Request} {key : Key}
  {reply : Reply} {slot after : Slot}

/-- In the run, this request was answered with this reply, which began to be copied for the cache
under the key. -/
def Commissioned (start : Engine) (id : Nat) (request : Request) (key : Key) (reply : Reply)
    (events : List Event) : Prop :=
  ∃ before rest exchange out, events = before ++ .answer id (.ok reply) :: rest ∧
    (start.run before).exchange? id = some exchange ∧ exchange.request = request ∧
    exchange.phase = .awaiting .treated out ∧
    treatment (start.run before).tiers exchange.info reply.status
      (treatedResponse exchange.info reply).headers = .cache key

theorem Commissioned.more (h : start.Commissioned id request key reply events)
    (more : List Event) : start.Commissioned id request key reply (events ++ more) := by
  obtain ⟨before, rest, exchange, out, rfl, facts⟩ := h
  exact ⟨before, rest ++ more, exchange, out, by simp, facts⟩

/-- What a task in this stage has to do with the reply. -/
def Due (start : Engine) (events : List Event) (id : Nat) (slot : Slot) (key : Key) :
    TaskStage → Prop
  | .collecting collector => ∃ request reply transcript,
      start.Commissioned id request key reply events ∧ Copying reply slot collector transcript
  | .inserting payload => key.queryClass = .resourceUsage ∧
      ∃ request reply, start.Commissioned id request key reply events ∧ Drawn reply payload
  | .populating population => key.queryClass ≠ .resourceUsage ∧ population.key = key ∧
      ∃ request reply, start.Commissioned id request key reply events
  | .closing => True

def Filed (start : Engine) (events : List Event) (id : Nat) (slot : Slot) : Prop :=
  ∀ task, slot.task = some task → start.Due events id slot task.key task.stage

theorem Due.keep {stage : TaskStage} (h : start.Due events id slot key stage)
    (copies : ∀ reply collector transcript, Copying reply slot collector transcript →
      ∃ later, Copying reply after collector later) :
    start.Due events id after key stage := by
  cases stage with
  | collecting collector =>
      obtain ⟨request, reply, transcript, commissioned, copying⟩ := h
      obtain ⟨later, hlater⟩ := copies reply collector transcript copying
      exact ⟨request, reply, later, commissioned, hlater⟩
  | inserting | populating | closing => exact h

theorem Due.more {stage : TaskStage} (h : start.Due events id slot key stage) (event : Event) :
    start.Due (events ++ [event]) id slot key stage := by
  cases stage with
  | collecting collector =>
      obtain ⟨request, reply, transcript, commissioned, copying⟩ := h
      exact ⟨request, reply, transcript, commissioned.more [event], copying⟩
  | inserting payload =>
      obtain ⟨own, request, reply, commissioned, drawn⟩ := h
      exact ⟨own, request, reply, commissioned.more [event], drawn⟩
  | populating population =>
      obtain ⟨other, own, request, reply, commissioned⟩ := h
      exact ⟨other, own, request, reply, commissioned.more [event]⟩
  | closing => exact h

theorem due_stageAfter {body : Except Unit Bytes}
    (commissioned : start.Commissioned id request key reply events)
    (drawn : ∀ payload, body = .ok payload → Drawn reply payload) :
    start.Due events id slot key (stageAfter key body) := by
  cases body with
  | error _ => exact trivial
  | ok payload =>
      change start.Due events id slot key (storing key payload)
      unfold storing
      split
      · rename_i own
        exact ⟨own, request, reply, commissioned, drawn payload rfl⟩
      · rename_i other
        exact ⟨other, rfl, request, reply, commissioned⟩

theorem Filed.untasked (h : slot.task = none) : start.Filed events id slot := by
  intro task found
  cases h.symm.trans found

theorem Filed.ofTask {task : CachingTask} (found : slot.task = some task)
    (due : start.Due events id slot task.key task.stage) : start.Filed events id slot := by
  intro other hother
  cases found.symm.trans hother
  exact due

theorem Filed.more (h : start.Filed events id slot) (event : Event) :
    start.Filed (events ++ [event]) id slot :=
  fun task found => (h task found).more event

theorem Filed.keep (h : start.Filed events id slot) (task : after.task = slot.task)
    (copies : ∀ reply collector transcript, Copying reply slot collector transcript →
      ∃ later, Copying reply after collector later) : start.Filed events id after :=
  fun other found => (h other (task.symm.trans found)).keep copies

theorem Works.filed {task : CachingTask} {later : Option CachingTask} {tee : Option Tee}
    {shared : Shared} (works : Works (start.run events) task later tee shared)
    (found : (start.run events).task? task.exchange = some task)
    (h : start.Filed events task.exchange ((start.run events).slot task.exchange)) :
    start.Filed events task.exchange
      { (start.run events).slot task.exchange with task := later, tee } := by
  have due := h task found
  have collects : ∀ {collector : Collector} {present : Tee}, task.stage = .collecting collector →
      (start.run events).tee? task.exchange = some present →
      ∃ request reply transcript,
        start.Commissioned task.exchange request task.key reply events ∧
        Copying reply ((start.run events).slot task.exchange) collector transcript ∧
        transcript.tee = present := by
    intro collector present collecting copied
    rw [collecting] at due
    obtain ⟨request, reply, transcript, commissioned, copying⟩ := due
    exact ⟨request, reply, transcript, commissioned, copying,
      Option.some.inj (copying.tee.symm.trans copied)⟩
  cases works with
  | starved collector present rest collecting copied poll =>
      obtain ⟨request, reply, transcript, commissioned, copying, rfl⟩ := collects collecting copied
      obtain ⟨grown, hgrown⟩ := copying.starve poll
      refine .ofTask found ?_
      rw [collecting]
      exact ⟨request, reply, grown, commissioned, { hgrown with }⟩
  | ended collector present rest collecting copied poll =>
      obtain ⟨request, reply, transcript, commissioned, copying, -⟩ := collects collecting copied
      exact .ofTask rfl (due_stageAfter commissioned fun _ => copying.drawn_of_finish)
  | broken => exact .ofTask rfl trivial
  | grown collector grown present rest chunk collecting copied poll fed =>
      obtain ⟨request, reply, transcript, commissioned, copying, rfl⟩ := collects collecting copied
      obtain ⟨later, hlater⟩ := copying.grow poll fed
      exact .ofTask rfl ⟨request, reply, later, commissioned, { hlater with }⟩
  | decoded collector grown present rest chunk body collecting copied poll fed =>
      obtain ⟨request, reply, transcript, commissioned, copying, rfl⟩ := collects collecting copied
      refine .ofTask rfl (due_stageAfter commissioned ?_)
      rintro payload rfl
      exact (copying.whole_of_feed poll fed).drawn
  | insert => exact .ofTask rfl trivial
  | populate population stage tiers store populating step =>
      rw [populating] at due
      exact .ofTask rfl due
  | populated => exact .ofTask rfl trivial
  | close => exact .untasked rfl

theorem Move.filed {event : Event} {shared : Shared}
    (move : Move (start.run events) id event after shared)
    (formed : ((start.run events).slot id).WellFormed (start.run events).frame id)
    (h : start.Filed events id ((start.run events).slot id)) :
    start.Filed (events ++ [event]) id after := by
  have unanswered : ∀ {exchange : Exchange}, (start.run events).exchange? id = some exchange →
      exchange.phase.isResponded = false → (start.run events).task? id = none := by
    intro exchange found responded
    exact congrArg Slot.task (formed.bare found responded)
  cases move with
  | arrive request fresh =>
      exact .untasked (congrArg Slot.task (formed.fresh (Nat.le_of_eq fresh.symm)))
  | turn exchange phase store found turns => exact .untasked (unanswered found turns.unanswered)
  | join exchange key tiers gate found approaching =>
      exact .untasked (unanswered found (by rw [approaching]; rfl))
  | giveUp exchange key gate deadline found waiting =>
      exact .untasked (unanswered found (by rw [waiting]; rfl))
  | conclude exchange event response found concludes =>
      exact .untasked (unanswered found concludes.unanswered)
  | filter exchange kind request reply found awaiting =>
      exact .untasked (unanswered found (by rw [awaiting]; rfl))
  | copy exchange key request reply found awaiting cache =>
      have bare := formed.bare found (by rw [awaiting]; rfl)
      have untasked : (start.run events).task? id = none := congrArg Slot.task bare
      have unteed : (start.run events).tee? id = none := congrArg Slot.tee bare
      have commissioned : start.Commissioned id exchange.request key reply
          (events ++ [.answer id (.ok reply)]) :=
        ⟨events, [], exchange, request, rfl, found, rfl, awaiting, cache⟩
      rw [untasked, unteed, declaredLength?_treatedResponse, declared?_treatedResponse]
      exact .ofTask rfl ⟨exchange.request, reply, _, commissioned,
        .start (start.run events).teeBuffer rfl⟩
  | readDirect exchange response source found responded =>
      refine (h.more _).keep rfl fun reply collector transcript copying => ⟨_, copying.keep ?_⟩
      rintro _ other ⟨⟩ ⟨⟩
  | readCopy exchange response tee found responded copied =>
      refine (h.more _).keep rfl fun reply collector transcript copying => ?_
      cases copying.tee.symm.trans copied
      exact copying.read _ (copying.reading exchange response found responded)
  | dropBody exchange response delivery found responded =>
      refine (h.more _).keep rfl fun reply collector transcript copying => ⟨_, copying.keep ?_⟩
      rintro _ other ⟨⟩ ⟨⟩
  | dropCopy exchange response tee found responded copied =>
      refine (h.more _).keep rfl fun reply collector transcript copying => ?_
      cases copying.tee.symm.trans copied
      exact copying.drop nofun
  | abandon exchange found unanswered =>
      have bare := formed.bare found (Phase.isResponded_eq_false unanswered)
      exact .untasked (congrArg Slot.task bare)
  | work task later tee shared found works =>
      have number := exchange_of_task? found
      subst number
      exact (works.filed found h).more _

end Tasks

theorem run_filed (settings : Settings) (store : CountedStore) (now : Nat) (events : List Event)
    (id : Nat) : (Engine.start settings store now).Filed events id
      (((Engine.start settings store now).run events).slot id) := by
  refine run_slots (Engine.start settings store now).Filed settings store now
    (fun id => .untasked rfl) (fun events event id slot h => h.more event) ?_ events id
  intro events event id slot shared move h
  exact move.filed (run_wellFormed (start_wellFormed settings store now) events id) h

end Engine

end Outpost.Proxy
