import Outpost.Proofs.Coding.Codings
import Outpost.Proofs.Proxy.Collections

/-!
# Readable hits

A hit declares no coding, whatever the response declared whose body was stored for it.  The two have
the same content for a reader who honours their headers as long as what was decoded on the way into
the tier is all that was declared, and no longer.
-/

namespace Outpost.Proxy

open Api Cache Coding Config Http Store Outpost.Stream

/-! ## Headers and bodies -/

theorem content_congr (others : String → Bytes → Option Bytes) {headers fields : Headers}
    (same : headers.values "content-encoding" = fields.values "content-encoding") :
    content others headers = content others fields := by
  funext body
  unfold content codings
  rw [same]

theorem content_treatedResponse (others : String → Bytes → Option Bytes) (info : RequestInfo)
    (reply : Reply) :
    content others (treatedResponse info reply).headers = content others reply.headers :=
  content_congr others (values_treatedResponse info reply (by decide) (by decide))

def declaring (values : List Bytes) : Headers :=
  values.map fun value => ("content-encoding", value)

theorem values_declaring (values : List Bytes) :
    (declaring values).values "content-encoding" = values := by
  unfold Headers.values declaring
  rw [List.filter_eq_self.mpr (by simp), List.map_map]
  exact List.map_id values

theorem firstText?_declaring (values : List Bytes) {name : String}
    (other : name ≠ "content-encoding") : (declaring values).firstText? name = none := by
  have absent : (declaring values).values name = [] := by
    unfold Headers.values declaring
    rw [List.map_eq_nil_iff, List.filter_eq_nil_iff]
    simp [Ne.symm other]
  unfold Headers.firstText? Headers.first?
  rw [absent]
  rfl

theorem declared?_congr {headers fields : Headers}
    (same : headers.values "content-encoding" = fields.values "content-encoding") :
    declared? headers = declared? fields := by
  unfold declared? Headers.firstText? Headers.first?
  rw [same]

theorem fullyDecoded_declaring (headers : Headers) :
    FullyDecoded (declaring (headers.values "content-encoding")) ↔ FullyDecoded headers := by
  have same := values_declaring (headers.values "content-encoding")
  unfold FullyDecoded codings
  rw [declared?_congr same, same]

/-- A body never brings more than the declared length, and ends only with all of it. -/
structure Measured (reply : Reply) : Prop where
  framed : Framed reply
  bounded : ∀ length, declaredLength? reply.headers = some length →
    reply.body.bytes.length ≤ length

theorem Whole.decoded? {reply : Reply} {payload : Bytes} (whole : Whole reply payload)
    (measured : Measured reply) :
    Coding.decoded? reply.headers reply.body.bytes = some payload := by
  unfold Coding.decoded?
  cases whole with
  | ended plain all ends => rw [plain, all]
  | measured length plain measure reached isPrefix stalls =>
      have bound := measured.bounded length measure
      rw [plain, isPrefix.eq_of_length_le (by omega)]
  | decoded format coded contents =>
      rw [coded]
      simp only [contents]
      rfl

namespace Engine

/-! ## The reply behind an entry -/

section Entries

variable {start : Engine} {events : List Event} {id : Nat} {request : Request} {key : Key}
  {reply : Reply} {slot : Slot} {payload : Bytes}

/-- In the run, a task got this payload from the reply to this request, and all of it as long as the
length of the reply is right. -/
def Got (start : Engine) (id : Nat) (key : Key) (payload : Bytes) (events : List Event) : Prop :=
  ∃ request reply, start.Commissioned id request key reply events ∧ Drawn reply payload ∧
    (Framed reply → Whole reply payload)

theorem Got.more (h : start.Got id key payload events) (more : List Event) :
    start.Got id key payload (events ++ more) := by
  obtain ⟨request, reply, commissioned, got⟩ := h
  exact ⟨request, reply, commissioned.more more, got⟩

def Gathered (start : Engine) (events : List Event) (id : Nat) (slot : Slot) : Prop :=
  ∀ task payload, slot.task = some task → task.stage = .inserting payload →
    start.Got id task.key payload events

theorem Gathered.more (h : start.Gathered events id slot) (event : Event) :
    start.Gathered (events ++ [event]) id slot := by
  intro task payload found inserting
  exact (h task payload found inserting).more [event]

theorem body_of_stageAfter {body : Except Unit Bytes}
    (inserting : stageAfter key body = .inserting payload) : body = .ok payload := by
  cases body with
  | error _ => cases inserting
  | ok collected =>
      change storing key collected = _ at inserting
      unfold storing at inserting
      split at inserting
      · cases inserting
        rfl
      · cases inserting

theorem Works.gathered {task after : CachingTask} {later : Option CachingTask} {tee : Option Tee}
    {shared : Shared} (works : Works (start.run events) task later tee shared)
    (known : (start.run events).task? task.exchange = some task)
    (filed : start.Filed events task.exchange ((start.run events).slot task.exchange))
    (found : later = some after) (inserting : after.stage = .inserting payload) :
    start.Got task.exchange after.key payload events := by
  have due := filed task known
  cases works with
  | starved collector present rest collecting =>
      cases known.symm.trans found
      cases collecting.symm.trans inserting
  | ended collector present rest collecting copied poll =>
      cases found
      rw [collecting] at due
      obtain ⟨request, reply, transcript, commissioned, copying⟩ := due
      cases copying.tee.symm.trans copied
      have finished := body_of_stageAfter inserting
      exact ⟨request, reply, commissioned, copying.drawn_of_finish finished,
        fun framed => copying.whole_of_finish framed poll finished⟩
  | decoded collector grown present rest chunk body collecting copied poll fed =>
      cases found
      rw [collecting] at due
      obtain ⟨request, reply, transcript, commissioned, copying⟩ := due
      cases copying.tee.symm.trans copied
      have whole := copying.whole_of_feed poll (body_of_stageAfter inserting ▸ fed)
      exact ⟨request, reply, commissioned, whole.drawn, fun _ => whole⟩
  | close => cases found
  | _ => cases found; cases inserting

theorem Move.gathered {event : Event} {shared : Shared}
    (move : Move (start.run events) id event slot shared)
    (filed : start.Filed events id ((start.run events).slot id))
    (h : start.Gathered events id ((start.run events).slot id)) :
    start.Gathered (events ++ [event]) id slot := by
  cases move with
  | copy exchange key request reply found awaiting cache =>
      intro task payload htask inserting
      cases known : (start.run events).task? id with
      | none =>
          simp only [known, Option.none_or] at htask
          cases htask
          cases inserting
      | some before =>
          simp only [known, Option.some_or] at htask
          obtain rfl := Option.some.inj htask
          exact h.more _ before payload known inserting
  | work before later tee shared found works =>
      intro task payload htask inserting
      have number := exchange_of_task? found
      subst number
      exact (works.gathered found filed htask inserting).more _
  | _ => exact h.more _

theorem run_gathered (settings : Settings) (store : CountedStore) (now : Nat)
    (events : List Event) (id : Nat) : (Engine.start settings store now).Gathered events id
      (((Engine.start settings store now).run events).slot id) := by
  refine run_slots (Engine.start settings store now).Gathered settings store now
    (fun _ _ _ found => by cases found) (fun _ event _ _ h => h.more event) ?_ events id
  intro events event id slot shared move h
  exact move.gathered (run_filed settings store now events id) h

/-- Every entry was stored for some request, and is a whole payload of the reply to it if the length
of that is right. -/
theorem run_stored_whole {settings : Settings} {store : CountedStore} {now : Nat}
    (present : ((Engine.start settings store now).run events).tiers.volatile? key =
      some payload) :
    ∃ id request reply,
      (Engine.start settings store now).Stored id request key reply payload events ∧
      (Framed reply → Whole reply payload) := by
  obtain ⟨id, _, _, stored⟩ := run_stored present
  obtain ⟨before, after, rfl, absent, there⟩ := stored.inserted
  obtain ⟨_, task, ⟨⟩, found, rfl, inserting⟩ := inserting_of_volatile? absent there
  obtain ⟨request, reply, commissioned, drawn, whole⟩ :=
    run_gathered settings store now before id task payload found inserting
  exact ⟨id, request, reply, ⟨commissioned.arrived.more _, commissioned.more _, drawn,
    before, after, rfl, absent, there⟩, whole⟩

end Entries

/-! ## The two responses -/

section Responses

variable {start : Engine} {events : List Event} {id : Nat} {request : Request} {key : Key}
  {reply : Reply}

inductive Gives (engine : Engine) (id : Nat) (response : Response) : Source → Prop where
  | direct (exchange : Exchange) (source : Source) (found : engine.exchange? id = some exchange)
      (responded : exchange.phase = .responded response (.direct source)) :
      Gives engine id response source
  | copied (exchange : Exchange) (tee : Tee) (found : engine.exchange? id = some exchange)
      (responded : exchange.phase = .responded response .copied)
      (present : engine.tee? id = some tee) (unread : tee.parked = none) :
      Gives engine id response tee.source

def PassedOn (start : Engine) (id : Nat) (response : Response) (reply : Reply)
    (events : List Event) : Prop :=
  ∃ before after, events = before ++ .answer id (.ok reply) :: after ∧
    (start.run (before ++ [.answer id (.ok reply)])).Gives id response reply.body

theorem gives_start {engine : Engine} {exchange : Exchange} {response : Response} {source : Source}
    {buffer : Nat} {length : Option Nat} (found : engine.exchange? id = some exchange)
    (responded : exchange.phase = .responded response .copied)
    (present : engine.tee? id = some (Tee.start source buffer length)) :
    engine.Gives id response source := by
  have fresh : (Tee.start source buffer length).source = source ∧
      (Tee.start source buffer length).parked = none := by
    unfold Tee.start
    split <;> exact ⟨rfl, rfl⟩
  rw [← fresh.1]
  exact .copied exchange _ found responded present fresh.2

theorem Commissioned.passedOn {settings : Settings} {store : CountedStore} {now : Nat}
    (h : (Engine.start settings store now).Commissioned id request key reply events) :
    (Engine.start settings store now).PassedOn id
      { treatedResponse request.info reply with payload := .copied } reply events := by
  obtain ⟨before, after, exchange, out, rfl, found, rfl, awaiting, cache⟩ := h
  have number := id_of_exchange? found
  subst number
  have wellFormed := run_wellFormed (start_wellFormed settings store now) before exchange.id
  have bare := wellFormed.bare found (by rw [awaiting]; rfl)
  have info : exchange.info = exchange.request.info := (wellFormed.exchange exchange found).info
  have copied := slot_copyForCache key (treatedResponse exchange.info reply) reply.body bare
  have treated : ((Engine.start settings store now).run before).treat exchange reply =
      ((Engine.start settings store now).run before).copyForCache exchange key
        (treatedResponse exchange.info reply) reply.body := by
    unfold treat
    simp only [cache]
  rw [← treated, ← step_treat found reply awaiting, ← run_concat, info] at copied
  exact ⟨before, after, rfl,
    gives_start (congrArg Slot.exchange copied) rfl (congrArg Slot.tee copied)⟩

end Responses

/-- Every hit brings the entry as its content, and so did the response to the request that the entry
was stored for. -/
def HitsReadAlike (others : String → Bytes → Option Bytes) (start : Engine)
    (events : List Event) : Prop :=
  ∀ before after id exchange key payload, events = before ++ .advance id :: after →
    (start.run before).exchange? id = some exchange →
    (exchange.phase = .firstLook key ∨ exchange.phase = .secondLook key) →
    (start.run before).tiers.volatile? key = some payload →
    ∃ origin request reply hit source,
      start.Stored origin request key reply payload before ∧
      start.PassedOn origin { treatedResponse request.info reply with payload := .copied } reply
        before ∧
      (start.run (before ++ [.advance id])).Gives id hit source ∧
      content others hit.headers source.bytes = some payload ∧
      content others (treatedResponse request.info reply).headers reply.body.bytes = some payload

/-! ## Entries that are not readable -/

section Unreadable

variable (values : List Bytes)

def blankReply (values : List Bytes) : Reply :=
  ⟨200, declaring values, Source.ofBytes (emptyBody (declared? (declaring values)))⟩

theorem pollBackground_ofBytes {bytes : Bytes} (nonempty : bytes ≠ []) (now buffer : Nat) :
    ((Tee.start (Source.ofBytes bytes) buffer none).pollForeground now).1.pollBackground.2 =
      .chunk bytes := by
  cases bytes with
  | nil => exact absurd rfl nonempty
  | cons byte rest =>
      have room : 0 < max buffer 1 := by omega
      simp [Tee.start, Source.ofBytes, Tee.pollForeground, Tee.pollSource, Source.pollItems,
        Tee.pass, room, Tee.deliver, Tee.reachedExpectedLength, Tee.pollBackground]

theorem declaredLength?_blankReply : declaredLength? (blankReply values).headers = none := by
  unfold declaredLength?
  rw [blankReply, firstText?_declaring values (by decide)]
  rfl

theorem measured_blankReply : Measured (blankReply values) where
  framed length declared := by cases (declaredLength?_blankReply values).symm.trans declared
  bounded length declared := by cases (declaredLength?_blankReply values).symm.trans declared

theorem fills_blankReply : Fills (blankReply values) [] where
  treated := rfl
  json := by
    unfold isJson
    rw [blankReply, firstText?_declaring values (by decide)]
  completes now buffer := by
    rw [declaredLength?_blankReply]
    unfold blankReply
    simp only
    cases coded : declared? (declaring values) with
    | none => rfl
    | some format =>
        have nonempty : emptyBody (some format) ≠ [] := by
          cases format <;> exact List.cons_ne_nil _ _
        rw [pollBackground_ofBytes nonempty]
        have decoded := decode_emptyBody format
        unfold Collector.Completes Collector.start Collector.feed
        simp only [List.nil_append, decoded]

end Unreadable

/-! ## When hits are readable -/

theorem hitsReadAlike_of_fullyDecoded {settings : Settings} {store : CountedStore} {now : Nat}
    {events : List Event} (others : String → Bytes → Option Bytes)
    (replies : ∀ id reply, .answer id (.ok reply) ∈ events →
      Measured reply ∧ FullyDecoded reply.headers) :
    (start settings store now).HitsReadAlike others events := by
  rintro before after id exchange key payload rfl found looking present
  obtain ⟨origin, asking, reply, stored, whole⟩ := run_stored_whole present
  obtain ⟨measured, fully⟩ := replies origin reply (List.mem_append_left _ stored.answered)
  have hit := exchange?_hit found looking present
  rw [← run_concat] at hit
  refine ⟨origin, asking, reply, _, _, stored, stored.commissioned.passedOn,
    .direct _ _ hit rfl, ?_, ?_⟩
  · rw [Source.bytes_ofBytes]
    rfl
  · rw [content_treatedResponse, content_of_fullyDecoded fully]
    exact (whole measured.framed).decoded? measured

/-- Where more is declared than decoded, a request that can be sent upstream fills its entry with
what is no content of the response, and the same request then hits the entry. -/
theorem exists_unreadable {settings : Settings} (dev : settings.handler = .dev)
    {request : Request} {key : Key} {out : Outgoing} (asks : AsksFor request key)
    (sendable : outgoing settings.upstream request = .ok out) {values : List Bytes}
    (more : ¬ FullyDecoded (declaring values)) :
    ∃ events, (∀ id reply, .answer id (.ok reply) ∈ events → reply = blankReply values) ∧
      ¬ (start settings .inMemory 0).HitsReadAlike (fun _ _ => none) events := by
  obtain ⟨events, -, only, filled⟩ := exists_entry dev asks sendable (fills_blankReply values)
  obtain ⟨payload, present⟩ := Option.isSome_iff_exists.mp filled
  obtain ⟨looking, still⟩ := run_look
    (run_wellFormed (start_wellFormed settings .inMemory 0) events) dev asks present
  generalize ((start settings .inMemory 0).run events).nextId = number at looking still
  let arrival : List Event := [.probed true, .arrive request, .advance number]
  have answers : ∀ id reply, .answer id (.ok reply) ∈ events ++ arrival →
      reply = blankReply values := by
    intro id reply member
    rcases List.mem_append.mp member with earlier | later
    · exact only id reply earlier
    · simp [arrival] at later
  refine ⟨events ++ arrival ++ [.advance number], ?_, fun readable => ?_⟩
  · intro id reply member
    rcases List.mem_append.mp member with earlier | later
    · exact answers id reply earlier
    · simp at later
  · obtain ⟨origin, asking, reply, hit, source, stored, -, -, -, same⟩ :=
      readable (events ++ arrival) [] number _ key payload rfl looking (.inl rfl) still
    cases answers origin reply stored.answered
    have bytes : (blankReply values).body.bytes = emptyBody (declared? (declaring values)) :=
      Source.bytes_ofBytes _
    rw [content_treatedResponse, bytes] at same
    cases (content_emptyBody more).symm.trans same

/-- The hits of all runs in which the replies have certain values of Content-Encoding are readable
just when each of these declares the coding that is decoded and no other. -/
theorem hitsReadAlike_iff (settings : Settings) (dev : settings.handler = .dev) {request : Request}
    {key : Key} {out : Outgoing} (asks : AsksFor request key)
    (sendable : outgoing settings.upstream request = .ok out) (allowed : List Bytes → Prop) :
    (∀ others store now events,
      (∀ id reply, .answer id (.ok reply) ∈ events →
        Measured reply ∧ allowed (reply.headers.values "content-encoding")) →
      (start settings store now).HitsReadAlike others events) ↔
    ∀ values, allowed values → FullyDecoded (declaring values) := by
  constructor
  · intro readable values among
    by_contra more
    obtain ⟨events, only, unreadable⟩ := exists_unreadable dev asks sendable more
    refine unreadable (readable _ _ _ _ fun id reply member => ?_)
    rw [only id reply member]
    refine ⟨measured_blankReply values, ?_⟩
    rw [blankReply, values_declaring]
    exact among
  · intro fully others store now events replies
    refine hitsReadAlike_of_fullyDecoded others fun id reply member => ?_
    obtain ⟨measured, among⟩ := replies id reply member
    exact ⟨measured, (fullyDecoded_declaring _).mp (fully _ among)⟩

/-- Without a coding, and with one that has a format, all hits are readable. -/
theorem hitsReadAlike_iff_formats :
    (Settings.default default).handler = .dev ∧
      AsksFor (volatileRequest "/api/v1/pods") ⟨.pods, "", .resourceUsage⟩ ∧
      (∃ out, outgoing (Settings.default default).upstream (volatileRequest "/api/v1/pods") =
        .ok out) ∧
      ∀ others store now events,
        (∀ id reply, .answer id (.ok reply) ∈ events → Measured reply ∧
          reply.headers.values "content-encoding" ∈
            [[], [Bytes.ofText "gzip"], [Bytes.ofText "X-GZip"], [Bytes.ofText "deflate"]]) →
        (start (Settings.default default) store now).HitsReadAlike others events := by
  have asks : AsksFor (volatileRequest "/api/v1/pods") ⟨.pods, "", .resourceUsage⟩ :=
    ⟨rfl, by decide +kernel, by decide +kernel⟩
  obtain ⟨out, sendable⟩ : ∃ out, outgoing (Settings.default default).upstream
      (volatileRequest "/api/v1/pods") = .ok out := ⟨_, rfl⟩
  exact ⟨rfl, asks, ⟨out, sendable⟩,
    (hitsReadAlike_iff (Settings.default default) rfl asks sendable
      (· ∈ [[], [Bytes.ofText "gzip"], [Bytes.ofText "X-GZip"], [Bytes.ofText "deflate"]])).mpr
      (by decide +kernel)⟩

/-! ### A coding without a format -/

def unbrotli : String → Bytes → Option Bytes
  | "br", stream =>
      let header := littleEndian (stream.take 3)
      let length := header / 16 % 65536 + 1
      if header % 16 = 0 ∧ header / 1048576 = 1 ∧ stream.drop (3 + length) = [0x03] then
        some ((stream.drop 3).take length)
      else none
  | _, _ => none

def noPods : Bytes := Bytes.ofText "\x7b\"kind\":\"PodList\",\"items\":[]\x7d"

def brotliStream : Bytes := [0xC0, 0x01, 0x10] ++ noPods ++ [0x03]

def brotliReply : Reply := {
  status := 200
  headers := [("content-type", Bytes.ofText "application/json"),
    ("content-encoding", Bytes.ofText "br")]
  body := ⟨[.chunk brotliStream]⟩ }

def brotliRun : List Event :=
  [.probed true, .arrive (volatileRequest "/api/v1/pods"), .advance 0, .advance 0, .advance 0,
    .advance 0, .advance 0, .advance 0, .answer 0 (.ok brotliReply), .read 0, .work 0, .read 0,
    .work 0, .work 0]

/-- After that, whoever asks for the pods again is answered with the stream, which no header says is
one. -/
theorem pods_answered_with_stream :
    let begin := start (Settings.default default) .inMemory 0
    let events := brotliRun ++
      [.probed true, .arrive (volatileRequest "/api/v1/pods"), .advance 1] ++ [.advance 1]
    Measured brotliReply ∧
      content unbrotli brotliReply.headers brotliReply.body.bytes = some noPods ∧
      (begin.run events).Gives 1 (Response.json 200 brotliStream) (Source.ofBytes brotliStream) ∧
      content unbrotli (Response.json 200 brotliStream).headers
        (Source.ofBytes brotliStream).bytes = some brotliStream ∧
      ¬ begin.HitsReadAlike unbrotli events := by
  intro begin events
  have measured : Measured brotliReply := by
    have undeclared : declaredLength? brotliReply.headers = none := by decide +kernel
    exact ⟨fun _ declared => (nomatch undeclared.symm.trans declared),
      fun _ declared => (nomatch undeclared.symm.trans declared)⟩
  have decoded : content unbrotli brotliReply.headers brotliReply.body.bytes = some noPods := by
    decide +kernel
  have asks : AsksFor (volatileRequest "/api/v1/pods") ⟨.pods, "", .resourceUsage⟩ :=
    ⟨rfl, by decide +kernel, by decide +kernel⟩
  have present : (begin.run brotliRun).tiers.volatile? ⟨.pods, "", .resourceUsage⟩ =
      some brotliStream := by decide +kernel
  have number : (begin.run brotliRun).nextId = 1 := by decide +kernel
  obtain ⟨looking, still⟩ := run_look
    (run_wellFormed (start_wellFormed (Settings.default default) .inMemory 0) brotliRun) rfl asks
    present
  rw [number] at looking still
  have hit := exchange?_hit looking (.inl rfl) still
  rw [← run_concat] at hit
  refine ⟨measured, decoded, .direct _ _ hit rfl, by decide +kernel, fun readable => ?_⟩
  obtain ⟨origin, asking, reply, _, _, stored, -, -, -, same⟩ :=
    readable _ [] 1 _ _ brotliStream rfl looking (.inl rfl) still
  have member := stored.answered
  simp only [brotliRun, List.mem_append, List.mem_cons, List.not_mem_nil, or_false, false_or,
    reduceCtorEq, Event.answer.injEq, Except.ok.injEq] at member
  rw [member.2, content_treatedResponse, decoded] at same
  have differ : noPods ≠ brotliStream := by decide +kernel
  exact differ (Option.some.inj same)

end Engine

end Outpost.Proxy
