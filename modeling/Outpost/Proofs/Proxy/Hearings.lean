import Outpost.Proofs.Proxy.Outage
import Outpost.Proofs.Proxy.Readings

/-!
# What clients hear of an answer

Once an exchange is answered its client has the head of that response and no other, and what it
hears of a body that is not copied follows that body, whoever goes away and whatever else happens.
-/

namespace Outpost.Proxy

open Api Cache Coding Config Http Store Outpost.Stream

namespace Engine

section Steps

variable {engine : Engine} {id : Nat} {event : Event} {exchange next : Exchange}
  {response : Response} {delivery : Delivery}

theorem delivery_of_fresh
    (unanswered : ∀ exchange, engine.exchange? id = some exchange →
      exchange.phase.isResponded = false)
    (found : (engine.step event).exchange? id = some next)
    (responded : next.phase = .responded response delivery) :
    delivery = Delivery.ofPayload response.payload := by
  have still : ∀ {exchange : Exchange}, engine.exchange? id = some exchange →
      exchange.phase ≠ .responded response delivery := by
    intro exchange found responded
    have open_ := unanswered exchange found
    rw [responded] at open_
    cases open_
  rcases step_slot_cases engine event id with same | move
  · exact absurd responded (still ((congrArg Slot.exchange same).symm.trans found))
  change ((engine.step event).slot id).exchange = some next at found
  generalize (engine.step event).slot id = slot at move found
  generalize (engine.step event).shared = shared at move
  cases move with
  | arrive request fresh =>
      rcases Option.or_eq_some_iff.mp found with before | ⟨-, arrived⟩
      · exact absurd responded (still before)
      · cases arrived
        cases responded
  | turn exchange phase store hexchange turns =>
      cases found
      cases turns <;> cases responded
      rfl
  | conclude exchange event given hexchange concludes =>
      cases found
      cases responded
      rfl
  | copy exchange key request reply hexchange awaiting =>
      cases found
      cases responded
      rfl
  | readDirect exchange given source hexchange direct =>
      have open_ := unanswered exchange hexchange
      rw [direct] at open_
      cases open_
  | readCopy exchange given tee hexchange copied =>
      exact absurd responded (still found)
  | dropBody exchange given left hexchange direct | dropCopy exchange given left hexchange direct =>
      have open_ := unanswered exchange hexchange
      rw [direct] at open_
      cases open_
  | work task after tee shared worked works => exact absurd responded (still found)
  | join | giveUp | filter | abandon => cases found <;> cases responded

theorem delivery_of_answered (found : engine.exchange? id = some exchange)
    (responded : exchange.phase = .responded response delivery) (unread : event ≠ .read id) :
    ∃ next left, (engine.step event).exchange? id = some next ∧
      next.phase = .responded response left ∧ (left = delivery ∨ left = .dropped) := by
  obtain ⟨next, left, hnext, hresponded⟩ :=
    HasResponse.step ⟨exchange, delivery, found, responded⟩ event
  refine ⟨next, left, hnext, hresponded, ?_⟩
  have answered : exchange.phase.isResponded = true := by rw [responded]; rfl
  have kept : ∀ other, some other = some next → other = exchange → left = delivery := by
    rintro _ ⟨⟩ rfl
    exact (Phase.responded.inj (hresponded.symm.trans responded)).2
  rcases step_slot_cases engine event id with same | move
  · exact .inl (kept next rfl (Option.some.inj
      (hnext.symm.trans ((congrArg Slot.exchange same).trans found))))
  change ((engine.step event).slot id).exchange = some next at hnext
  generalize (engine.step event).slot id = slot at move hnext
  generalize (engine.step event).shared = shared at move
  cases move with
  | arrive request fresh =>
      rw [found] at hnext
      exact .inl (kept exchange hnext rfl)
  | turn other phase store hother turns =>
      cases found.symm.trans hother
      cases answered.symm.trans turns.unanswered
  | conclude other event given hother concludes =>
      cases found.symm.trans hother
      cases answered.symm.trans concludes.unanswered
  | readDirect | readCopy => exact absurd rfl unread
  | dropBody other given whole hother | dropCopy other given tee hother =>
      cases found.symm.trans hother
      cases hnext
      cases hresponded
      exact .inr rfl
  | abandon other hother unanswered => cases hnext
  | work task after tee shared worked works => exact .inl (kept exchange (found ▸ hnext) rfl)
  | join other key tiers gate hother before | giveUp other key gate deadline hother before
  | filter other kind request reply hother before | copy other key request reply hother before =>
      cases found.symm.trans hother
      cases responded.symm.trans before

end Steps

/-! ## Hearing an answer -/

inductive Hears (exchange : Option Exchange) (seen : Seen) : Prop where
  | unanswered (unanswered : ∀ now, exchange = some now → now.phase.isResponded = false)
      (head : seen.head = none) (body : seen.body = .empty)
  | answered (now : Exchange) (response : Response) (delivery : Delivery)
      (found : exchange = some now) (responded : now.phase = .responded response delivery)
      (head : seen.head = some response.head)
      (body : ∀ source, Delivery.ofPayload response.payload = .direct source →
        seen.body.Follows source ∧
          (delivery = .dropped ∨ ∃ rest, delivery = .direct rest ∧ source.Leaves rest seen.body))

section Hears

variable {start : Engine} {events : List Event} {id : Nat} {event : Event} {seen : Seen}

theorem Hears.unread (h : Hears ((start.run events).exchange? id) seen)
    (unread : event ≠ .read id) :
    Hears (((start.run events).step event).exchange? id)
      (seen.after (((start.run events).step event).exchange? id)) := by
  cases h with
  | unanswered unanswered head body =>
      cases found : ((start.run events).step event).exchange? id with
      | none => exact .unanswered (fun _ absent => by cases absent) head body
      | some now =>
          cases hphase : now.phase with
          | responded response delivery =>
              have fresh := delivery_of_fresh unanswered found hphase
              refine .answered now response delivery rfl hphase ?_ fun source direct => ?_
              · simp [Seen.after, hphase, Phase.head?]
              · have leaves : source.Leaves source seen.body := body ▸ source.leaves_start
                exact ⟨leaves.follows, .inr ⟨source, fresh.trans direct, leaves⟩⟩
          | _ =>
              refine .unanswered (fun other same => ?_) ?_ body
              · cases same
                rw [hphase]
                rfl
              · simp [Seen.after, hphase, Phase.head?, head]
  | answered now response delivery found responded head body =>
      obtain ⟨next, left, hnext, hleft, change⟩ := delivery_of_answered found responded unread
      refine .answered next response left hnext hleft ?_ fun source direct => ?_
      · simp [Seen.after, hnext, hleft, Phase.head?]
      · obtain ⟨follows, delivered⟩ := body source direct
        refine ⟨follows, ?_⟩
        rcases change with rfl | dropped
        · exact delivered
        · exact .inl dropped

theorem Hears.read (h : Hears ((start.run events).exchange? id) seen) :
    Hears (((start.run events).step (.read id)).exchange? id)
      (Seen.after { seen with body := (start.run events).heard id seen.body (.read id) }
        (((start.run events).step (.read id)).exchange? id)) := by
  cases h with
  | unanswered unanswered head body =>
      cases found : (start.run events).exchange? id with
      | none =>
          have idle : (start.run events).step (.read id) = start.run events := by
            simp only [step, Engine.read, found]
          rw [idle, found]
          refine .unanswered (fun _ absent => by cases absent) head ?_
          simpa [Seen.after, heard, found] using body
      | some now =>
          have responded := unanswered now found
          have idle : now.phase.isDelivering = false := by
            cases hphase : now.phase <;> simp_all [Phase.isResponded, Phase.isDelivering]
          rw [step_read_idle found idle, heard_idle found _ idle, found]
          refine .unanswered (fun other same => ?_) ?_ body
          · cases same
            exact responded
          · cases hphase : now.phase <;> simp_all [Seen.after, Phase.head?, Phase.isResponded]
  | answered now response delivery found responded head body =>
      cases delivery with
      | direct rest =>
          have polled := read_direct found responded
          have stepped : (start.run events).step (.read id) = (start.run events).setPhase now
              (.responded response (.direct (rest.poll (start.run events).now).1)) :=
            congrArg Prod.fst polled
          rw [stepped, exchange?_setPhase found, heard_read found _ (by rw [responded]; rfl),
            polled]
          refine .answered _ response _ rfl rfl rfl fun source direct => ?_
          obtain ⟨-, gone | ⟨left, same, leaves⟩⟩ := body source direct
          · cases gone
          · cases same
            have later := leaves.poll (start.run events).now
            exact ⟨later.follows, .inr ⟨_, rfl, later⟩⟩
      | copied =>
          obtain ⟨next, left, hnext, hleft⟩ :=
            HasResponse.step ⟨now, .copied, found, responded⟩ (.read id)
          refine .answered next response left hnext hleft ?_ fun source direct => ?_
          · simp [Seen.after, hnext, hleft, Phase.head?]
          · obtain ⟨-, gone | ⟨_, same, -⟩⟩ := body source direct
            · cases gone
            · cases same
      | dropped =>
          have idle : now.phase.isDelivering = false := by rw [responded]; rfl
          rw [step_read_idle found idle, heard_idle found _ idle, found]
          refine .answered now response .dropped rfl responded ?_ body
          simp [Seen.after, responded, Phase.head?]

end Hears

theorem run_hears (start : Engine) (id : Nat) (fresh : start.exchange? id = none)
    (events : List Event) : Hears ((start.run events).exchange? id) (start.seen id events) := by
  induction events using List.reverseRecOn with
  | nil =>
      refine .unanswered (fun now found => ?_) rfl rfl
      cases fresh.symm.trans found
  | append_singleton before event ih =>
      rw [seen_concat, run_concat]
      by_cases reads : event = .read id
      · subst reads
        exact ih.read
      · have unheard : (start.run before).heard id (start.seen id before).body event =
            (start.seen id before).body := by
          cases event with
          | read other => simp_all [heard]
          | _ => rfl
        rw [unheard]
        exact ih.unread reads

/-! ## Clients that stay -/

/-- The exchange is there, and its client has not turned away from the body. -/
def Attended (id : Nat) (engine : Engine) : Prop :=
  ∃ exchange, engine.exchange? id = some exchange ∧
    ∀ response, exchange.phase ≠ .responded response .dropped

section Attended

variable {engine start : Engine} {id : Nat} {events : List Event} {exchange : Exchange}

theorem ofPayload_ne_dropped (payload : Payload) : Delivery.ofPayload payload ≠ .dropped := by
  cases payload <;> nofun

theorem Turns.heeded {phase : Phase} {store : CountedStore}
    (turns : Turns engine exchange phase store) (response : Response) :
    phase ≠ .responded response .dropped := by
  cases turns with
  | fallBack =>
      intro same
      exact ofPayload_ne_dropped _ (Phase.responded.inj same).2
  | _ => nofun

theorem Attended.step (h : engine.Attended id) {event : Event} (stays : event ≠ .abandon id) :
    (engine.step event).Attended id := by
  obtain ⟨exchange, found, heeded⟩ := h
  rcases step_slot_cases engine event id with same | move
  · exact ⟨exchange, (congrArg Slot.exchange same).trans found, heeded⟩
  have here : (engine.step event).exchange? id = ((engine.step event).slot id).exchange := rfl
  unfold Attended
  rw [here]
  generalize (engine.step event).slot id = slot at move
  generalize (engine.step event).shared = shared at move
  cases move with
  | arrive request fresh => exact ⟨exchange, by rw [found]; rfl, heeded⟩
  | turn other phase store hother turns => exact ⟨_, rfl, turns.heeded⟩
  | conclude other event response hother concludes =>
      exact ⟨_, rfl, fun _ same => ofPayload_ne_dropped _ (Phase.responded.inj same).2⟩
  | readCopy | work => exact ⟨exchange, found, heeded⟩
  | dropBody | dropCopy | abandon => exact absurd rfl stays
  | _ => exact ⟨_, rfl, fun _ same => by cases same⟩

theorem Attended.run (h : engine.Attended id) (stays : .abandon id ∉ events) :
    (engine.run events).Attended id := by
  induction events generalizing engine with
  | nil => exact h
  | cons event rest ih =>
      rw [List.mem_cons, not_or] at stays
      exact ih (h.step (Ne.symm stays.1)) stays.2

theorem not_abandon_of_own {result : Except TransportFailure Reply}
    (own : ∀ event ∈ events, event.IsOwn id result) : .abandon id ∉ events :=
  fun member => own _ member

/-! ## Hearing all of it -/

/-- The client has the head of a response and has heard all of a body. -/
structure HasHeard (start : Engine) (id : Nat) (events : List Event) (response : Response)
    (source : Source) : Prop where
  head : (start.seen id events).head = some response.head
  follows : (start.seen id events).body.Follows source
  all : (start.seen id events).body.HearsAll source

section Hearing

variable {response : Response} {source : Source} (fresh : start.exchange? id = none)
  (direct : Delivery.ofPayload response.payload = .direct source)

include fresh direct

theorem leaves_of_attended (responded : (start.run events).HasResponse id response)
    (attended : (start.run events).Attended id) :
    ∃ exchange rest, (start.run events).exchange? id = some exchange ∧
      exchange.phase = .responded response (.direct rest) ∧
      source.Leaves rest (start.seen id events).body := by
  obtain ⟨exchange, delivery, found, responded⟩ := responded
  obtain ⟨other, hother, heeded⟩ := attended
  cases found.symm.trans hother
  cases run_hears start id fresh events with
  | unanswered unanswered =>
      have open_ := unanswered exchange found
      rw [responded] at open_
      cases open_
  | answered now given left hnow hgiven head body =>
      cases found.symm.trans hnow
      cases responded.symm.trans hgiven
      obtain ⟨-, rfl | ⟨rest, rfl, leaves⟩⟩ := body source direct
      · exact absurd responded (heeded response)
      · exact ⟨exchange, rest, found, responded, leaves⟩

theorem hasHeard_of_atLast (responded : (start.run events).HasResponse id response)
    (attended : (start.run events).Attended id) (last : AtLast id (start.run events)) :
    start.HasHeard id (events ++ [.read id]) response source := by
  obtain ⟨exchange, rest, found, delivering, leaves⟩ :=
    leaves_of_attended fresh direct responded attended
  have spent : Source.pollsLeft rest.items = 0 := by
    cases last with
    | direct other given left hother hgiven last =>
        cases found.symm.trans hother
        cases delivering.symm.trans hgiven
        exact last
    | copied other given tee hother hgiven =>
        cases found.symm.trans hother
        cases delivering.symm.trans hgiven
  have polled := read_direct found delivering
  have stepped : (start.run events).step (.read id) = (start.run events).setPhase exchange
      (.responded response (.direct (rest.poll (start.run events).now).1)) :=
    congrArg Prod.fst polled
  have seen : start.seen id (events ++ [.read id]) =
      ⟨(start.seen id events).sent, some response.head,
        (start.seen id events).body.note (rest.poll (start.run events).now).2⟩ := by
    rw [seen_concat, heard_read found _ (by rw [delivering]; rfl), stepped,
      exchange?_setPhase found, polled]
    rfl
  have later := leaves.poll (start.run events).now
  refine ⟨?_, ?_, ?_⟩ <;> rw [seen]
  · exact later.follows
  · exact leaves.hearsAll _ spent

/-- A client that stays hears all of a body that is not copied. -/
theorem exists_hasHeard (result : Except TransportFailure Reply)
    (responded : (start.run events).HasResponse id response)
    (attended : (start.run events).Attended id) :
    ∃ more, (∀ event ∈ more, event.IsOwn id result) ∧
      start.HasHeard id (events ++ more) response source := by
  obtain ⟨exchange, rest, found, delivering, -⟩ :=
    leaves_of_attended fresh direct responded attended
  obtain ⟨more, own, last⟩ := @leads_of_direct _ _ _ result _ _ found delivering
  have still := responded.run more
  have heeded := attended.run (not_abandon_of_own own)
  rw [← run_append] at last still heeded
  refine ⟨more ++ [.read id], List.forall_mem_append.mpr ⟨own, by simp [Event.IsOwn]⟩, ?_⟩
  rw [← List.append_assoc]
  exact hasHeard_of_atLast fresh direct still heeded last

end Hearing

end Attended

end Engine

end Outpost.Proxy
