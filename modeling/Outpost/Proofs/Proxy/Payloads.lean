import Outpost.Proofs.Coding.Member
import Outpost.Proofs.Proxy.SingleFlight
import Outpost.Proofs.Stream.Agreement

/-!
# Whole payloads only

However a body arrives, whoever reads it or goes away, what gets into the volatile tier is the
whole payload of one reply.  The invariant follows a caching task from the reply on: the tee of
its exchange has a transcript, and what the task has collected is what the background half of it
has brought.
-/

namespace Outpost.Proxy

open Api Cache Coding Config Http Store Outpost.Stream

/-! ## Replies and their payloads -/

/-- A declared length is the number of bytes of a body that ends, and a body that fails brings
fewer. -/
def Framed (reply : Reply) : Prop :=
  ∀ length, declaredLength? reply.headers = some length →
    (reply.body.fate = .ends → reply.body.bytes.length = length) ∧
      ∀ message, reply.body.fate = .fails message → reply.body.bytes.length < length

inductive Whole (reply : Reply) (payload : Bytes) : Prop where
  | ended (plain : declared? reply.headers = none) (all : payload = reply.body.bytes)
      (ends : reply.body.fate = .ends)
  /-- The body does not end, but has brought the declared length. -/
  | measured (length : Nat) (plain : declared? reply.headers = none)
      (measure : declaredLength? reply.headers = some length) (reached : length ≤ payload.length)
      (isPrefix : payload <+: reply.body.bytes) (stalls : reply.body.fate = .stalls)
  | decoded (format : Format) (coded : declared? reply.headers = some format)
      (contents : decode format reply.body.bytes = .ok payload)

theorem whole_of_ended {reply : Reply} {transcript : Transcript}
    (sound : Transcript.Sound reply.body (declaredLength? reply.headers) transcript)
    (ended : transcript.background.ending = some (.ok ())) (framed : Framed reply)
    (plain : declared? reply.headers = none) : Whole reply transcript.background.bytes := by
  obtain ⟨received, complete⟩ := sound.received_all ended
  rw [received]
  rcases (sound.complete complete).2 with ⟨⟨all, ends⟩, -⟩ | reached
  · exact .ended plain all ends
  obtain ⟨length, measure, reached⟩ := sound.reachedExpectedLength_iff.mp reached
  have fits := framed length measure
  have bound := sound.isPrefix.length_le
  cases hfate : reply.body.fate with
  | ends =>
      have all := sound.isPrefix.eq_of_length_le (by have := fits.1 hfate; omega)
      exact .ended plain all hfate
  | fails message =>
      have short := fits.2 message hfate
      omega
  | stalls => exact .measured length plain measure reached sound.isPrefix hfate

/-! ## Copies on their way -/

structure Copying (reply : Reply) (slot : Slot) (collector : Collector)
    (transcript : Transcript) : Prop where
  sound : transcript.Sound reply.body (declaredLength? reply.headers)
  tee : slot.tee = some transcript.tee
  receiving : transcript.hasBackground = true
  unended : transcript.background.ending = none
  received : collector.received = transcript.background.bytes
  format : collector.format = declared? reply.headers
  reading : ∀ exchange response, slot.exchange = some exchange →
    exchange.phase = .responded response .copied → transcript.hasForeground = true

namespace Copying

variable {reply : Reply} {slot : Slot} {collector : Collector} {transcript : Transcript}

theorem start (buffer : Nat)
    (copied : slot.tee = some (Tee.start reply.body buffer (declaredLength? reply.headers))) :
    Copying reply slot (Collector.start (declared? reply.headers))
      (Transcript.start reply.body buffer (declaredLength? reply.headers)) where
  sound := Transcript.start_sound reply.body buffer (declaredLength? reply.headers)
  tee := copied
  receiving := rfl
  unended := rfl
  received := rfl
  format := rfl
  reading _ _ _ _ := rfl

theorem isPrefix (h : Copying reply slot collector transcript) :
    transcript.background.bytes <+: reply.body.bytes := by
  refine List.IsPrefix.trans ?_ h.sound.isPrefix
  unfold Log.bytes
  rw [← h.sound.queued h.receiving, List.flatten_append]
  exact List.prefix_append _ _

theorem read (h : Copying reply slot collector transcript) (now : Nat)
    (foreground : transcript.hasForeground = true) :
    ∃ after, Copying reply
      { slot with tee := some (transcript.tee.pollForeground now).1 } collector after := by
  have turned : transcript.turn (.pollForeground now) =
      { transcript with
        tee := (transcript.tee.pollForeground now).1
        foreground := transcript.foreground.note (transcript.tee.pollForeground now).2 } := by
    unfold Transcript.turn
    simp only
    rw [if_pos foreground]
  have sound := Transcript.turn_sound h.sound (.pollForeground now)
  rw [turned] at sound
  exact ⟨_, sound, rfl, h.receiving, h.unended, h.received, h.format, h.reading⟩

theorem drop (h : Copying reply slot collector transcript) {exchange : Exchange}
    (gone : ∀ response, exchange.phase ≠ .responded response .copied) :
    ∃ after, Copying reply
      { slot with exchange := some exchange, tee := some transcript.tee.dropForeground } collector
      after := by
  refine ⟨_, Transcript.turn_sound h.sound .dropForeground, rfl, h.receiving, h.unended,
    h.received, h.format, ?_⟩
  rintro _ response ⟨⟩ copied
  exact absurd copied (gone response)

theorem keep (h : Copying reply slot collector transcript) {exchange : Option Exchange}
    (reading : ∀ now response, exchange = some now → now.phase = .responded response .copied →
      ∃ before, slot.exchange = some before ∧ before.phase = .responded response .copied) :
    Copying reply { slot with exchange } collector transcript :=
  { h with
    reading := by
      intro now response hnow copied
      obtain ⟨before, hbefore, same⟩ := reading now response hnow copied
      exact h.reading before response hbefore same }

theorem turned (h : Copying reply slot collector transcript) {tee : Tee} {poll : Poll TeeError}
    (hpoll : transcript.tee.pollBackground = (tee, poll)) :
    (Transcript.mk tee transcript.hasForeground true transcript.foreground
      (transcript.background.note poll)).Sound reply.body (declaredLength? reply.headers) := by
  have sound := Transcript.turn_sound h.sound .pollBackground
  unfold Transcript.turn at sound
  simp only [h.receiving, if_true, hpoll] at sound
  exact sound

theorem starve (h : Copying reply slot collector transcript) {tee : Tee}
    (hpoll : transcript.tee.pollBackground = (tee, .pending)) :
    ∃ after, Copying reply { slot with tee := some tee } collector after :=
  ⟨_, h.turned hpoll, rfl, rfl, h.unended, h.received, h.format, h.reading⟩

theorem grow (h : Copying reply slot collector transcript) {tee : Tee} {chunk : Bytes}
    {grown : Collector} (hpoll : transcript.tee.pollBackground = (tee, .chunk chunk))
    (fed : collector.feed chunk = (grown, none)) :
    ∃ after, Copying reply { slot with tee := some tee } grown after := by
  have shape : grown = { collector with received := collector.received ++ chunk } := by
    unfold Collector.feed at fed
    simp only at fed
    repeat' split at fed
    all_goals simp_all
  refine ⟨_, h.turned hpoll, rfl, rfl, h.unended, ?_, ?_, h.reading⟩
  · rw [shape, h.received]
    simp [Log.note, Log.bytes]
  · rw [shape]
    exact h.format

theorem whole_of_feed (h : Copying reply slot collector transcript) {tee : Tee}
    {chunk contents : Bytes} {grown : Collector}
    (hpoll : transcript.tee.pollBackground = (tee, .chunk chunk))
    (fed : collector.feed chunk = (grown, some (.ok contents))) : Whole reply contents := by
  have later : Copying reply { slot with tee := some tee }
      { collector with received := collector.received ++ chunk }
      (Transcript.mk tee transcript.hasForeground true transcript.foreground
        (transcript.background.note (.chunk chunk))) := by
    refine ⟨h.turned hpoll, rfl, rfl, h.unended, ?_, h.format, h.reading⟩
    rw [h.received]
    simp [Log.note, Log.bytes]
  have isPrefix := later.isPrefix
  rw [← later.received] at isPrefix
  unfold Collector.feed at fed
  simp only at fed
  split at fed
  · cases fed
  · rename_i format coded
    split at fed
    · rename_i found decoded
      cases fed
      exact .decoded format (h.format ▸ coded) (decode_of_begin decoded isPrefix)
    · cases fed
    · cases fed

theorem whole_of_finish (h : Copying reply slot collector transcript) {tee : Tee}
    {contents : Bytes} (framed : Framed reply)
    (hpoll : transcript.tee.pollBackground = (tee, .ended))
    (finished : collector.finish = .ok contents) : Whole reply contents := by
  have sound := h.turned hpoll
  have ended : (transcript.background.note (.ended : Poll TeeError)).ending = some (.ok ()) := by
    unfold Log.note
    simp only [h.unended, Option.none_or]
  unfold Collector.finish at finished
  split at finished
  · rename_i plain
    cases finished
    have whole := whole_of_ended sound ended framed (h.format ▸ plain)
    rw [h.received]
    exact whole
  · cases finished

end Copying

/-! ## Where payloads come from -/

namespace Engine

section Origins

variable {start : Engine} {events : List Event}

def Answered (start : Engine) (events : List Event) (key : Key) (reply : Reply) : Prop :=
  ∃ before after id exchange request,
    events = before ++ .answer id (.ok reply) :: after ∧
    (start.run before).exchange? id = some exchange ∧
    exchange.phase = .awaiting .treated request ∧
    Key.ofRequest? (RequestInfo.classify exchange.request.method exchange.request.target) =
      some key ∧
    isTreated reply.status = true

theorem Answered.more {key : Key} {reply : Reply} (h : start.Answered events key reply)
    (event : Event) : start.Answered (events ++ [event]) key reply := by
  obtain ⟨before, after, id, exchange, request, rfl, facts⟩ := h
  exact ⟨before, after ++ [event], id, exchange, request, by simp, facts⟩

theorem Answered.mem {key : Key} {reply : Reply} (h : start.Answered events key reply) :
    ∃ id, .answer id (.ok reply) ∈ events := by
  obtain ⟨before, after, id, exchange, request, rfl, facts⟩ := h
  exact ⟨id, by simp⟩

def Supplied (start : Engine) (events : List Event) (key : Key) (payload : Bytes) : Prop :=
  ∃ reply, start.Answered events key reply ∧ Whole reply payload

theorem Supplied.more {key : Key} {payload : Bytes} (h : start.Supplied events key payload)
    (event : Event) : start.Supplied (events ++ [event]) key payload := by
  obtain ⟨reply, answered, whole⟩ := h
  exact ⟨reply, answered.more event, whole⟩

/-- What is known of the payload that a caching task is about to store. -/
structure Traced (start : Engine) (events : List Event) (slot : Slot) : Prop where
  collecting : ∀ task collector, slot.task = some task → task.stage = .collecting collector →
    ∃ reply transcript, start.Answered events task.key reply ∧
      Copying reply slot collector transcript
  inserting : ∀ task payload, slot.task = some task → task.stage = .inserting payload →
    start.Supplied events task.key payload

theorem Traced.more {slot : Slot} (h : start.Traced events slot) (event : Event) :
    start.Traced (events ++ [event]) slot where
  collecting task collector found stage := by
    obtain ⟨reply, transcript, answered, copying⟩ := h.collecting task collector found stage
    exact ⟨reply, transcript, answered.more event, copying⟩
  inserting task payload found stage := (h.inserting task payload found stage).more event

theorem Traced.untasked {slot : Slot} (h : slot.task = none) : start.Traced events slot where
  collecting task _ found := by cases h.symm.trans found
  inserting task _ found := by cases h.symm.trans found

theorem Traced.keep {slot : Slot} (h : start.Traced events slot) {exchange : Option Exchange}
    (reading : ∀ now response, exchange = some now → now.phase = .responded response .copied →
      ∃ before, slot.exchange = some before ∧ before.phase = .responded response .copied) :
    start.Traced events { slot with exchange } where
  collecting task collector found stage := by
    obtain ⟨reply, transcript, answered, copying⟩ := h.collecting task collector found stage
    exact ⟨reply, transcript, answered, copying.keep reading⟩
  inserting := h.inserting

theorem Traced.setTee {slot : Slot} (h : start.Traced events slot) {tee after : Tee}
    {exchange : Option Exchange} (found : slot.tee = some tee)
    (copies : ∀ reply collector transcript, transcript.tee = tee →
      Copying reply slot collector transcript →
      ∃ later, Copying reply { slot with exchange, tee := some after } collector later) :
    start.Traced events { slot with exchange, tee := some after } where
  collecting task collector htask stage := by
    obtain ⟨reply, transcript, answered, copying⟩ := h.collecting task collector htask stage
    have same : transcript.tee = tee := Option.some.inj (copying.tee.symm.trans found)
    obtain ⟨later, hlater⟩ := copies reply collector transcript same copying
    exact ⟨reply, later, answered, hlater⟩
  inserting := h.inserting

theorem Traced.ofStage {slot : Slot} {task : CachingTask} (found : slot.task = some task)
    (collects : ∀ collector, task.stage ≠ .collecting collector)
    (inserts : ∀ payload, task.stage = .inserting payload →
      start.Supplied events task.key payload) : start.Traced events slot where
  collecting other collector hother stage := by
    cases found.symm.trans hother
    exact absurd stage (collects collector)
  inserting other payload hother stage := by
    cases found.symm.trans hother
    exact inserts payload stage

theorem Traced.ofBody {slot : Slot} {task : CachingTask} {body : Except Unit Bytes}
    (found : slot.task = some { task with stage := stageAfter task.key body })
    (supplied : ∀ payload, body = .ok payload → start.Supplied events task.key payload) :
    start.Traced events slot := by
  cases body with
  | error _ => exact .ofStage found nofun nofun
  | ok payload =>
      have stored : stageAfter task.key (.ok payload) = storing task.key payload := rfl
      rw [stored] at found
      unfold storing at found
      split at found
      · refine .ofStage found nofun ?_
        rintro _ ⟨⟩
        exact supplied payload rfl
      · exact .ofStage found nofun nofun

theorem Traced.ofCopying {slot : Slot} {task : CachingTask} {collector : Collector}
    {reply : Reply} {transcript : Transcript} (found : slot.task = some task)
    (collecting : task.stage = .collecting collector)
    (answered : start.Answered events task.key reply)
    (copying : Copying reply slot collector transcript) : start.Traced events slot where
  collecting other _ hother stage := by
    cases found.symm.trans hother
    cases collecting.symm.trans stage
    exact ⟨reply, transcript, answered, copying⟩
  inserting other _ hother stage := by
    cases found.symm.trans hother
    cases collecting.symm.trans stage

variable (framed : ∀ key reply, start.Answered events key reply → Framed reply)

section Collected

variable {slot : Slot} {task : CachingTask} {collector : Collector} {tee after : Tee}
  {payload : Bytes} (h : start.Traced events slot) (found : slot.task = some task)
  (collecting : task.stage = .collecting collector) (copied : slot.tee = some tee)

include h found collecting copied

include framed in
theorem Traced.supplied_of_finish (poll : tee.pollBackground = (after, .ended))
    (finished : collector.finish = .ok payload) : start.Supplied events task.key payload := by
  obtain ⟨reply, transcript, answered, copying⟩ := h.collecting task collector found collecting
  cases copying.tee.symm.trans copied
  exact ⟨reply, answered, copying.whole_of_finish (framed _ _ answered) poll finished⟩

theorem Traced.supplied_of_feed {chunk : Bytes} {grown : Collector}
    (poll : tee.pollBackground = (after, .chunk chunk))
    (fed : collector.feed chunk = (grown, some (.ok payload))) :
    start.Supplied events task.key payload := by
  obtain ⟨reply, transcript, answered, copying⟩ := h.collecting task collector found collecting
  cases copying.tee.symm.trans copied
  exact ⟨reply, answered, copying.whole_of_feed poll fed⟩

end Collected

include framed in
theorem Works.traced {id : Nat} {task : CachingTask} {after : Option CachingTask}
    {tee : Option Tee} {shared : Shared} (works : Works (start.run events) task after tee shared)
    (found : (start.run events).task? id = some task) (number : task.exchange = id)
    (h : start.Traced events ((start.run events).slot id)) :
    start.Traced events { (start.run events).slot id with task := after, tee } := by
  subst number
  have source := h.collecting task
  cases works with
  | starved collector copied rest collecting foundTee poll =>
      obtain ⟨reply, transcript, answered, copying⟩ := source collector found collecting
      cases copying.tee.symm.trans foundTee
      obtain ⟨later, hlater⟩ := copying.starve poll
      exact .ofCopying found collecting answered { hlater with }
  | ended collector copied rest collecting foundTee poll =>
      exact .ofBody rfl fun payload finished =>
        h.supplied_of_finish framed found collecting foundTee poll finished
  | broken collector copied rest error collecting foundTee poll => exact .ofStage rfl nofun nofun
  | grown collector grown copied rest chunk collecting foundTee poll fed =>
      obtain ⟨reply, transcript, answered, copying⟩ := source collector found collecting
      cases copying.tee.symm.trans foundTee
      obtain ⟨later, hlater⟩ := copying.grow poll fed
      exact .ofCopying rfl rfl answered { hlater with }
  | decoded collector grown copied rest chunk body collecting foundTee poll fed =>
      exact .ofBody rfl fun payload decoded =>
        h.supplied_of_feed found collecting foundTee poll (decoded ▸ fed)
  | insert payload inserting => exact .ofStage rfl nofun nofun
  | populate population stage tiers store populating step => exact .ofStage rfl nofun nofun
  | populated population result tiers store populating step => exact .ofStage rfl nofun nofun
  | close closing => exact .untasked rfl

theorem Move.traced {id : Nat} {event : Event} {slot : Slot} {shared : Shared}
    (move : Move (start.run events) id event slot shared)
    (wellFormed : (start.run events).WellFormed)
    (framed : ∀ key reply, start.Answered events key reply → Framed reply)
    (h : start.Traced events ((start.run events).slot id)) :
    start.Traced (events ++ [event]) slot := by
  have formed := wellFormed id
  cases move with
  | arrive request fresh =>
      exact .untasked (congrArg Slot.task (formed.fresh (Nat.le_of_eq fresh.symm)))
  | turn exchange phase store found turns =>
      exact .untasked (congrArg Slot.task (formed.bare found turns.unanswered))
  | join exchange key tiers gate found approaching opened =>
      exact .untasked (congrArg Slot.task (formed.bare found (by rw [approaching]; rfl)))
  | giveUp exchange key gate deadline found waiting unheld late =>
      exact .untasked (congrArg Slot.task (formed.bare found (by rw [waiting]; rfl)))
  | conclude exchange event response found concludes =>
      exact .untasked (congrArg Slot.task (formed.bare found concludes.unanswered))
  | filter exchange kind request reply found awaiting filter =>
      exact .untasked (congrArg Slot.task (formed.bare found (by rw [awaiting]; rfl)))
  | copy exchange key request reply found awaiting cache =>
      have bare := formed.bare found (by rw [awaiting]; rfl)
      have untasked : (start.run events).task? id = none := congrArg Slot.task bare
      have unteed : (start.run events).tee? id = none := congrArg Slot.tee bare
      have info := (formed.exchange exchange found).info
      have answered : start.Answered (events ++ [.answer id (.ok reply)]) key reply :=
        ⟨events, [], id, exchange, request, rfl, found, awaiting,
          info ▸ key_of_treatment cache, isTreated_of_treatment cache⟩
      rw [untasked, unteed, declaredLength?_treatedResponse, declared?_treatedResponse]
      exact .ofCopying rfl rfl answered (.start (start.run events).teeBuffer rfl)
  | readDirect exchange response source found responded =>
      refine (h.more _).keep ?_
      rintro _ other ⟨⟩ ⟨⟩
  | readCopy exchange response tee found responded copied =>
      refine (h.more _).setTee copied fun reply collector transcript same copying => ?_
      cases same
      exact copying.read _ (copying.reading exchange response found responded)
  | dropBody exchange response delivery found responded uncopied =>
      refine (h.more _).keep ?_
      rintro _ other ⟨⟩ ⟨⟩
  | dropCopy exchange response tee found responded copied =>
      refine (h.more _).setTee copied fun reply collector transcript same copying => ?_
      cases same
      exact copying.drop nofun
  | abandon exchange found unanswered =>
      have bare := formed.bare found (Phase.isResponded_eq_false unanswered)
      exact .untasked (congrArg Slot.task bare)
  | work task after tee shared found works =>
      exact (works.traced framed found (exchange_of_task? found) h).more _

theorem Works.supplied {task : CachingTask} {after : Option CachingTask} {tee : Option Tee}
    {shared : Shared} (works : Works (start.run events) task after tee shared)
    (found : (start.run events).task? task.exchange = some task)
    (h : start.Traced events ((start.run events).slot task.exchange)) {key : Key}
    {payload : Bytes} (present : shared.tiers.volatile? key = some payload) :
    (start.run events).tiers.volatile? key = some payload ∨ start.Supplied events key payload := by
  have populates : ∀ (population : Population) {tiers : Tiers} {store : CountedStore}
      {progress : Population.Progress},
      population.step (start.run events).tiers (start.run events).store =
        (tiers, store, progress) →
      tiers.volatile? key = some payload →
      (start.run events).tiers.volatile? key = some payload := by
    intro population tiers store progress step present
    have volatile :=
      Population.step_volatile? (start.run events).tiers (start.run events).store population key
    rw [step] at volatile
    exact volatile.symm.trans present
  cases works with
  | insert bytes inserting =>
      refine (Tiers.volatile?_of_insertVolatile present).imp_right ?_
      rintro ⟨rfl, rfl⟩
      exact h.inserting task payload found inserting
  | populate population stage tiers store populating step =>
      exact .inl (populates population step present)
  | populated population result tiers store populating step =>
      exact .inl (populates population step present)
  | _ => exact .inl present

/-- What comes into the volatile tier has come from a reply. -/
theorem Move.supplied {id : Nat} {event : Event} {slot : Slot} {shared : Shared}
    (move : Move (start.run events) id event slot shared)
    (h : start.Traced events ((start.run events).slot id)) {key : Key} {payload : Bytes}
    (present : shared.tiers.volatile? key = some payload) :
    (start.run events).tiers.volatile? key = some payload ∨ start.Supplied events key payload := by
  cases move with
  | join exchange other tiers gate found approaching opened =>
      exact .inl ((Tiers.volatile?_after_gate? opened key).symm.trans present)
  | work task after tee shared found works =>
      have number := exchange_of_task? found
      subst number
      exact works.supplied found h present
  | _ => exact .inl present

end Origins

theorem run_traced (settings : Settings) (store : CountedStore) (now : Nat) (events : List Event)
    (framed : ∀ id reply, .answer id (.ok reply) ∈ events → Framed reply) :
    (∀ id, (Engine.start settings store now).Traced events
        (((Engine.start settings store now).run events).slot id)) ∧
      ∀ key payload,
        ((Engine.start settings store now).run events).tiers.volatile? key = some payload →
        (Engine.start settings store now).Supplied events key payload := by
  induction events using List.reverseRecOn with
  | nil => exact ⟨fun id => .untasked rfl, fun key payload present => by cases present⟩
  | append_singleton before event ih =>
      have framedBefore := fun id reply sent =>
        framed id reply (List.mem_append_left [event] sent)
      obtain ⟨traced, supplied⟩ := ih framedBefore
      have wellFormed := run_wellFormed (start_wellFormed settings store now) before
      have answersFramed : ∀ key reply,
          (Engine.start settings store now).Answered before key reply → Framed reply := by
        intro key reply answered
        obtain ⟨id, sent⟩ := answered.mem
        exact framedBefore id reply sent
      rw [run_append]
      rcases step_moved ((Engine.start settings store now).run before) event with
        unmoved | ⟨moved, hmoved⟩
      · constructor
        · intro id
          have same : (((Engine.start settings store now).run before).run [event]).slot id =
              ((Engine.start settings store now).run before).slot id := unmoved.slots id
          rw [same]
          exact (traced id).more event
        · intro key payload present
          have same := congrArg (fun shared => shared.tiers.volatile? key) unmoved.shared
          exact (supplied key payload (same.symm.trans present)).more event
      · constructor
        · intro id
          by_cases same : id = moved
          · subst same
            exact hmoved.move.traced wellFormed answersFramed (traced id)
          · have kept : (((Engine.start settings store now).run before).run [event]).slot id =
                ((Engine.start settings store now).run before).slot id := hmoved.others id same
            rw [kept]
            exact (traced id).more event
        · intro key payload present
          rcases hmoved.move.supplied (traced moved) present with earlier | now
          · exact (supplied key payload earlier).more event
          · exact now.more event

/-! ## Hits -/

theorem exchange?_conclude {engine : Engine} {exchange : Exchange} (response : Response)
    (found : engine.exchange? exchange.id = some exchange) :
    (engine.conclude exchange response).exchange? exchange.id =
      some { exchange with
        gate := none
        phase := .responded response (Delivery.ofPayload response.payload) } := by
  have left : (engine.leaveGate exchange).exchange? exchange.id =
      some { exchange with gate := none } := congrArg Slot.exchange (slot_leaveGate found)
  refine (exchange?_setExchange exchange.id).trans ?_
  rw [if_pos rfl]
  exact congrArg (Option.map _) left

theorem exchange?_hit {engine : Engine} {exchange : Exchange} {id : Nat} {key : Key}
    {payload : Bytes} (found : engine.exchange? id = some exchange)
    (looking : exchange.phase = .firstLook key ∨ exchange.phase = .secondLook key)
    (present : engine.tiers.volatile? key = some payload) :
    (engine.step (.advance id)).exchange? id = some { exchange with
      gate := none
      phase := .responded (Response.json 200 payload) (.direct (Source.ofBytes payload)) } := by
  have number := id_of_exchange? found
  subst number
  have hit : engine.step (.advance exchange.id) = engine.hit exchange payload := by
    unfold step advance
    simp only [found]
    rcases looking with looking | looking <;> simp only [looking, present]
  rw [hit]
  exact exchange?_conclude (Response.json 200 payload) found

structure HoldsWholePayloads (start : Engine) (events : List Event) : Prop where
  whole : ∀ key payload, (start.run events).tiers.volatile? key = some payload →
    start.Supplied events key payload
  stays : ∀ before after key payload, events = before ++ after →
    (start.run before).tiers.volatile? key = some payload →
    (start.run events).tiers.volatile? key = some payload
  hits : ∀ before after id exchange key payload, events = before ++ after →
    (start.run before).tiers.volatile? key = some payload →
    (start.run events).exchange? id = some exchange →
    (exchange.phase = .firstLook key ∨ exchange.phase = .secondLook key) →
    ∃ hit response source, ((start.run events).step (.advance id)).exchange? id = some hit ∧
      hit.phase = .responded response (.direct source) ∧ response.status = 200 ∧
      source.bytes = payload ∧ source.fate = .ends

theorem run_holdsWholePayloads (settings : Settings) (store : CountedStore) (now : Nat)
    (events : List Event)
    (framed : ∀ id reply, .answer id (.ok reply) ∈ events → Framed reply) :
    (start settings store now).HoldsWholePayloads events := by
  have stays : ∀ before after key payload, events = before ++ after →
      ((start settings store now).run before).tiers.volatile? key = some payload →
      ((start settings store now).run events).tiers.volatile? key = some payload := by
    rintro before after key payload rfl present
    rw [run_append]
    exact run_volatile? (run_wellFormed (start_wellFormed settings store now) before) present after
  refine ⟨(run_traced settings store now events framed).2, stays, ?_⟩
  intro before after id exchange key payload split present found looking
  have hit := exchange?_hit found looking (stays before after key payload split present)
  exact ⟨_, _, _, hit, rfl, rfl, Source.bytes_ofBytes payload, Source.fate_ofBytes payload⟩

/-- The client goes away once the declared length has come through, with the end of the body
unread and the last chunk still queued. -/
theorem run_holdsWholePayloads_abandoned :
    let request : Request := {
      method := "GET"
      target := ⟨"/api/v1/pods", some "labelSelector=type%3Dresourceusage",
        some "/api/v1/pods?labelSelector=type%3Dresourceusage"⟩
      headers := [], body := [] }
    let reply : Reply := {
      status := 200
      headers := [("content-length", Bytes.ofText "2")]
      body := ⟨[.chunk [0x7B], .hold, .chunk [0x7D]]⟩ }
    let settings := Settings.default default
    let events : List Event := [.probed true, .arrive request, .advance 0, .advance 0, .advance 0,
      .advance 0, .advance 0, .advance 0, .answer 0 (.ok reply), .read 0, .work 0, .read 0, .read 0,
      .abandon 0, .work 0, .work 0, .work 0, .work 0]
    (∀ id reply, .answer id (.ok reply) ∈ events → Framed reply) ∧
      ((start settings .inMemory 0).run events).tiers.volatile? ⟨.pods, "", .resourceUsage⟩ =
        some [0x7B, 0x7D] ∧
      (start settings .inMemory 0).HoldsWholePayloads events := by
  intro request reply settings events
  have framed : ∀ id reply, .answer id (.ok reply) ∈ events → Framed reply := by
    intro id other sent
    have same : id = 0 ∧ other = reply := by simpa [events] using sent
    rw [same.2]
    intro length declared
    have measure : declaredLength? reply.headers = some 2 := by decide +kernel
    cases measure.symm.trans declared
    exact ⟨fun _ => by decide, fun message fails => by cases fails⟩
  exact ⟨framed, by decide +kernel, run_holdsWholePayloads settings .inMemory 0 events framed⟩

end Engine

end Outpost.Proxy
