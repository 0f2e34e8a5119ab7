import MediaRemote.Proofs.Session.Runs
import MediaRemote.Proofs.Wire.Descriptors

namespace MediaRemote.Session

open History (Since)
open Json (Value)
open Wire (Action ActionDescriptor CapabilitySet Descriptor)
open Step PlayerStep

namespace Player

def slotFor (advertised : String → Bool) (method : String) : Option Slot :=
  match method with
  | "capabilities" => some .capabilities
  | "onchange" => some .change
  | "getposition" => some .position
  | "play" | "pause" => if advertised "play" || advertised "pause" then some .state else none
  | "stop" => if advertised "stop" then some .state else none
  | "next" => if advertised "next" then some .state else none
  | "change" => if advertised "change" then some .change else none
  | "status" => if advertised "status" then some .change else none
  | "setnext" => if advertised "setnext" then some .next else none
  | "list" => if advertised "list" then some .list else none
  | "options" => if advertised "options" then some .options else none
  | "filter" => if advertised "filter" then some .filter else none
  | "info" => if advertised "info" then some .info else none
  | "setinfo" => if advertised "setinfo" then some .setInfo else none
  | "volume" => if advertised "volume" then some .volume else none
  | _ => none

/-- Only one name ever resolves to the capabilities. -/
theorem slotFor_capabilities {advertised : String → Bool} {method : String}
    (h : slotFor advertised method = some .capabilities) : method = "capabilities" := by
  unfold slotFor at h
  split at h
  · rfl
  all_goals first | cases h | (split at h <;> cases h)

/-- Nothing but known actions decides. -/
theorem slotFor_congr {advertised other : String → Bool}
    (h : ∀ name, (Action.ofMethod name).isOther = false → other name = advertised name)
    (method : String) : slotFor other method = slotFor advertised method := by
  unfold slotFor
  simp only [h "play" rfl, h "pause" rfl, h "stop" rfl, h "next" rfl, h "change" rfl,
    h "status" rfl, h "setnext" rfl, h "list" rfl, h "options" rfl, h "filter" rfl, h "info" rfl,
    h "setinfo" rfl, h "volume" rfl]

def routesFor (d : Option Descriptor) : Routes :=
  (d.elim [] (·.actions)).foldl (fun r a => openRoutes r a.method) .permanent

def capabilitiesOf (d : Option Descriptor) : CapabilitySet := (d.map .ofDescriptor).getD .empty

def registerAll (es : List (Action × Slot)) (r : Routes) : Routes :=
  es.foldl (fun r e => r.register e.1.method e.2) r

/-- With one slot for the method it does not matter in which order the routes are registered. -/
theorem resolve_registerAll {es : List (Action × Slot)} {method : String} {slot : Slot}
    (hs : ∀ e ∈ es, e.1.method = method → e.2 = slot) (r : Routes) :
    (registerAll es r).resolve method =
      if es.any (·.1.method = method) then some slot else r.resolve method := by
  induction es generalizing r with
  | nil => rfl
  | cons e es ih =>
    have hrest : ∀ x ∈ es, x.1.method = method → x.2 = slot := fun x hx => hs x (by simp [hx])
    have hfold : registerAll (e :: es) r = registerAll es (r.register e.1.method e.2) := rfl
    rw [hfold, ih hrest, Routes.resolve_register]
    by_cases he : e.1.method = method
    · simp [he, hs e (by simp) he]
    · rw [if_neg (Ne.symm he), List.any_cons, decide_eq_false he, Bool.false_or]

def announced (d : Option Descriptor) : List Action := (d.elim [] (·.actions)).map (·.method)

theorem routesFor_eq (d : Option Descriptor) :
    routesFor d = registerAll ((announced d).flatMap routesOf) .permanent := by
  simp only [routesFor, announced, registerAll, List.foldl_flatMap, List.foldl_map]
  rfl

theorem contains_capabilitiesOf (d : Option Descriptor) (a : Action) :
    (capabilitiesOf d).contains a = true ↔ a ∈ announced d := by
  cases d <;> simp [capabilitiesOf, announced, CapabilitySet.contains, CapabilitySet.ofDescriptor,
    CapabilitySet.empty]

section RoutesOf

variable {a b : Action} {e : Action × Slot}

theorem known_of_routesOf (he : e ∈ routesOf b) : e.1.isOther = false := by
  cases b <;> simp only [routesOf, List.mem_cons, List.not_mem_nil, or_false] at he
  all_goals first | (subst he; rfl) | (rcases he with rfl | rfl <;> rfl)

/-- Actions that open each other open the same routes. -/
theorem routesOf_eq (he : e ∈ routesOf b) : routesOf b = routesOf e.1 := by
  cases b <;> simp only [routesOf, List.mem_cons, List.not_mem_nil, or_false] at he
  all_goals first | (subst he; rfl) | (rcases he with rfl | rfl <;> rfl)

theorem mem_routesOf_self (he : e ∈ routesOf b) : b ∈ (routesOf b).map (·.1) := by
  cases b <;> simp [routesOf] at he ⊢

theorem slot_of_routesOf {s t : Slot} (hs : (a, s) ∈ routesOf a) (ht : (a, t) ∈ routesOf a) :
    s = t := by
  cases a <;> simp_all [routesOf]

theorem permanent_of_routesOf {s : Slot} (hs : (a, s) ∈ routesOf a) :
    Routes.permanent.resolve a.method = none := by
  cases a <;> first | rfl | cases hs

theorem eq_of_method (ha : a.isOther = false) (hb : b.isOther = false)
    (h : a.method = b.method) : a = b := by
  rw [← Action.ofMethod_method ha, ← Action.ofMethod_method hb, h]

end RoutesOf

/-- A method is routed when an action that opens its route was announced. -/
theorem resolve_opened {a : Action} {slot : Slot} (ha : (a, slot) ∈ routesOf a)
    (d : Option Descriptor) :
    (routesFor d).resolve a.method =
      if (capabilitiesOf d).containsAny ((routesOf a).map (·.1)) then some slot else none := by
  have hsame {b : Action} {e : Action × Slot} (he : e ∈ routesOf b)
      (hm : e.1.method = a.method) : e.1 = a ∧ routesOf b = routesOf a := by
    have hea := eq_of_method (known_of_routesOf he) (known_of_routesOf ha) hm
    exact ⟨hea, (routesOf_eq he).trans (by rw [hea])⟩
  have hslot : ∀ e ∈ (announced d).flatMap routesOf, e.1.method = a.method → e.2 = slot := by
    intro e he hm
    obtain ⟨b, -, heb⟩ := List.mem_flatMap.mp he
    obtain ⟨rfl, hb⟩ := hsame heb hm
    exact slot_of_routesOf (hb ▸ heb) ha
  have hany : ((announced d).flatMap routesOf).any (·.1.method = a.method) =
      (capabilitiesOf d).containsAny ((routesOf a).map (·.1)) := by
    rw [Bool.eq_iff_iff]
    simp only [CapabilitySet.containsAny, List.any_eq_true, contains_capabilitiesOf,
      List.mem_flatMap, decide_eq_true_eq]
    constructor
    · rintro ⟨e, ⟨b, hb, heb⟩, hm⟩
      exact ⟨b, (hsame heb hm).2 ▸ mem_routesOf_self heb, hb⟩
    · rintro ⟨b, hba, hb⟩
      obtain ⟨e, he, rfl⟩ := List.mem_map.mp hba
      exact ⟨(a, slot), ⟨e.1, hb, routesOf_eq he ▸ ha⟩, rfl⟩
  rw [routesFor_eq, resolve_registerAll hslot, permanent_of_routesOf ha, hany]

theorem resolve_unopened {method : String} (hn : ∀ a, ∀ e ∈ routesOf a, method ≠ e.1.method)
    (d : Option Descriptor) :
    (routesFor d).resolve method = Routes.permanent.resolve method := by
  have hentries : ∀ e ∈ (announced d).flatMap routesOf, e.1.method ≠ method := by
    intro e he
    obtain ⟨a, -, hea⟩ := List.mem_flatMap.mp he
    exact (hn a e hea).symm
  have hnone : ((announced d).flatMap routesOf).any (·.1.method = method) = false := by
    rw [List.any_eq_false]
    intro e he
    simpa using hentries e he
  have hslot : ∀ e ∈ (announced d).flatMap routesOf, e.1.method = method → e.2 = .state :=
    fun e he hm => absurd hm (hentries e he)
  rw [routesFor_eq, resolve_registerAll hslot, hnone]
  rfl

section Resolve

variable (d : Option Descriptor)

theorem resolve_own {a : Action} {slot : Slot} (ha : routesOf a = [(a, slot)]) :
    (routesFor d).resolve a.method =
      if (capabilitiesOf d).contains a then some slot else none := by
  rw [resolve_opened (ha ▸ List.mem_singleton_self _), ha]
  simp [CapabilitySet.containsAny]

/-- Playing and pausing are routed together. -/
theorem resolve_playing {a : Action} (ha : a = .play ∨ a = .pause) :
    (routesFor d).resolve a.method =
      if (capabilitiesOf d).contains .play || (capabilitiesOf d).contains .pause then
        some .state
      else none := by
  have hmem : (a, .state) ∈ routesOf a := by
    rcases ha with rfl | rfl <;> simp [routesOf]
  have hopeners : (routesOf a).map (·.1) = [.play, .pause] := by
    rcases ha with rfl | rfl <;> rfl
  rw [resolve_opened hmem, hopeners]
  simp [CapabilitySet.containsAny]

/-- The routes are those of the advertised actions. -/
theorem resolve_routesFor (method : String) :
    (routesFor d).resolve method =
      slotFor (fun name => (capabilitiesOf d).contains (.ofMethod name)) method := by
  unfold slotFor
  split
  case h_1 | h_2 | h_3 =>
    refine (resolve_unopened ?_ d).trans rfl
    intro a
    cases a <;> simp [routesOf, Action.method]
  case h_4 => exact resolve_playing d (.inl rfl)
  case h_5 => exact resolve_playing d (.inr rfl)
  case h_6 => exact resolve_own d (a := .stop) rfl
  case h_7 => exact resolve_own d (a := .next) rfl
  case h_8 => exact resolve_own d (a := .change) rfl
  case h_9 => exact resolve_own d (a := .status) rfl
  case h_10 => exact resolve_own d (a := .setNext) rfl
  case h_11 => exact resolve_own d (a := .list) rfl
  case h_12 => exact resolve_own d (a := .options) rfl
  case h_13 => exact resolve_own d (a := .filter) rfl
  case h_14 => exact resolve_own d (a := .info) rfl
  case h_15 => exact resolve_own d (a := .setInfo) rfl
  case h_16 => exact resolve_own d (a := .volume) rfl
  case h_17 hcapabilities honchange hposition _ _ _ _ _ _ _ _ _ _ _ _ _ =>
    refine (resolve_unopened ?_ d).trans ?_
    · intro a
      cases a <;> simp_all [routesOf, Action.method]
    · simp [Routes.resolve, Routes.permanent, Dictionary.find?_cons, Ne.symm hcapabilities,
        Ne.symm honchange, Ne.symm hposition]
      rfl

end Resolve

variable {ρ : Type}

structure Steady (p : Player ρ) (_ : List (Effect ρ)) (q : Player ρ) : Prop where
  capabilities : q.capabilities = p.capabilities
  routes : q.routes = p.routes

instance : Law (Steady (ρ := ρ)) where
  nothing _ := ⟨rfl, rfl⟩
  inTurn h g := ⟨g.capabilities.trans h.capabilities, g.routes.trans h.routes⟩

theorem steady_emit (e : Event) : Keeps (Steady (ρ := ρ)) (emit e) := fun _ => ⟨rfl, rfl⟩

theorem governs_steady : GovernsHandlers (Steady (ρ := ρ)) where
  note _ := .give fun _ => ⟨rfl, rfl⟩
  send action params := by
    intro p
    simp only [Player.send, Player.request]
    split <;> exact ⟨rfl, rfl⟩
  update _ := .modify fun _ => ⟨rfl, rfl⟩
  emit e _ _ := steady_emit e
  startPolling _ := .modify fun _ => ⟨rfl, rfl⟩
  stopPolling := .modify fun _ => ⟨rfl, rfl⟩

theorem steady_answer (i : Inbound ρ) : Keeps Steady (answer i) := fun _ => ⟨rfl, rfl⟩

theorem steady_fail (error : Value) (i : Inbound ρ) : Keeps Steady (fail error i) :=
  .cons (governs_steady.note _) (.cons (steady_emit _) .nil)

/-- Capabilities and routes are those of this descriptor, or of none. -/
structure Negotiated (d : Option Descriptor) (p : Player ρ) : Prop where
  capabilities : p.capabilities = capabilitiesOf d
  routes : p.routes = routesFor d

theorem Negotiated.steady {d : Option Descriptor} {p : Player ρ} (h : Negotiated d p)
    {f : PlayerStep ρ} (hf : Keeps Steady f) : Negotiated d (f p).1 :=
  ⟨(hf p).capabilities.trans h.capabilities, (hf p).routes.trans h.routes⟩

theorem announce_eq (a : ActionDescriptor) (p : Player ρ) :
    (announce a p).1 = { p with routes := openRoutes p.routes a.method } := by
  obtain ⟨action, params⟩ := a
  cases action <;> rfl

theorem announceAll_eq (actions : List ActionDescriptor) (p : Player ρ) :
    (inOrder (actions.map announce) p).1 =
      { p with routes := actions.foldl (fun r a => openRoutes r a.method) p.routes } := by
  induction actions generalizing p with
  | nil => rfl
  | cons a actions ih =>
    have hfirst : (inOrder ((a :: actions).map announce) p).1 =
        (inOrder (actions.map announce) (announce a p).1).1 := rfl
    rw [hfirst, ih, announce_eq]
    rfl

theorem negotiated_negotiate (d : Descriptor) (p : Player ρ) :
    Negotiated (some d) (negotiate d p).1 := by
  have hrest : Keeps (Steady (ρ := ρ))
      (inOrder
        [note (.supportedActions (d.actions.map (·.method.method))),
         emit (.actionsAnnounced d.actions),
         onlyIf (d.actions.any (·.method = .status)) (send .status .null)]) :=
    .cons (governs_steady.note _)
      (.cons (steady_emit _) (.cons (.onlyIf (governs_steady.send _ _) _) .nil))
  have hroutes : Negotiated (some d) (inOrder (d.actions.map announce)
      { p with capabilities := .ofDescriptor d, routes := .permanent }).1 := by
    rw [announceAll_eq]
    exact ⟨rfl, rfl⟩
  have hend := hroutes.steady hrest
  exact hend

def descriptorIn (i : Inbound ρ) : Option Descriptor :=
  if i.message.error = none ∧ i.message.method = some "capabilities" then
    i.message.payload.bind Descriptor.decoder.view
  else none

theorem route_negotiates {d : Option Descriptor} {p : Player ρ} (hn : Negotiated d p) (now : Nat)
    {method : String} {i : Inbound ρ} (he : i.message.error = none)
    (hm : i.message.method = some method) :
    Negotiated ((descriptorIn i).or d) (route now method i p).1 := by
  have hresolve := resolve_routesFor d method
  rw [← hn.routes] at hresolve
  unfold route
  by_cases hc : method = "capabilities"
  · subst hc
    have hd : descriptorIn i = i.message.payload.bind Descriptor.decoder.view := by
      simp [descriptorIn, he, hm]
    have hslot : p.routes.resolve "capabilities" = some .capabilities := hresolve
    rw [hslot, hd]
    cases hp : i.message.payload with
    | none => exact hn
    | some payload =>
      simp only [Option.bind_some, invoke, usable]
      cases hv : Descriptor.decoder.view payload with
      | none => exact hn.steady (governs_steady.note _)
      | some d' => exact negotiated_negotiate d' p
  · have hd : descriptorIn i = none := by simp [descriptorIn, hm, hc]
    rw [hd, Option.none_or]
    split
    · rename_i slot payload hslot _
      have hs : slot ≠ .capabilities := by
        rintro rfl
        exact hc (slotFor_capabilities (hresolve.symm.trans hslot))
      exact hn.steady (governs_steady.invoke now hs payload i.request)
    · exact hn

/-- A message negotiates anew, or leaves alone what was negotiated. -/
theorem dispatch_negotiates {d : Option Descriptor} {p : Player ρ} (hn : Negotiated d p) (now : Nat)
    (i : Inbound ρ) : Negotiated ((descriptorIn i).or d) (dispatch now i p).1 := by
  have hforward :
      Keeps (Steady (ρ := ρ)) (inOrder [onlyIf p.forwards (emit (.message i.message))]) :=
    .cons (.onlyIf (steady_emit (.message i.message)) p.forwards) .nil
  unfold dispatch
  split
  · rename_i error he
    have hd : descriptorIn i = none := by simp [descriptorIn, he]
    rw [hd, Option.none_or]
    have hfail := hn.steady (steady_fail error i)
    have hend := hfail.steady hforward
    exact hend
  · rename_i method he hm
    have hanswer := hn.steady (steady_answer i)
    have hroute := route_negotiates hanswer now he hm
    have hend := hroute.steady hforward
    exact hend
  · rename_i hm
    have hd : descriptorIn i = none := by simp [descriptorIn, hm]
    rw [hd, Option.none_or]
    have hend := hn.steady hforward
    exact hend

namespace Moment

variable (m : Moment ρ)

def inbound? : Option (Inbound ρ) :=
  match m.input with
  | .receive text => (m.before.rpc.receive text).toOption.map (·.1)
  | _ => none

def descriptor? : Option Descriptor := m.inbound?.bind descriptorIn

end Moment

/-- The last descriptor that could be used since the socket closed. -/
def latest (h : List (Moment ρ)) : Option Descriptor :=
  h.foldl (fun d m => if m.forgets then none else m.descriptor?.or d) none

theorem latest_concat (h : List (Moment ρ)) (m : Moment ρ) :
    latest (h ++ [m]) = if m.forgets then none else m.descriptor?.or (latest h) := by
  simp [latest]

theorem forgets_of_descriptor {m : Moment ρ} {d : Descriptor} (h : m.descriptor? = some d) :
    m.forgets = false := by
  obtain ⟨p, now, c⟩ := m
  cases c <;> first | rfl | cases h

theorem latest_eq_some (h : List (Moment ρ)) (d : Descriptor) :
    latest h = some d ↔
      Since (·.descriptor? = some d) (fun m => m.forgets = false ∧ m.descriptor? = none) h := by
  induction h using List.reverseRecOn with
  | nil => simp [latest, History.not_since_nil]
  | append_singleton h m ih =>
    rw [latest_concat, History.since_concat, ← ih]
    cases hd : m.descriptor? with
    | none => cases hf : m.forgets <;> simp
    | some d' => simp [forgets_of_descriptor hd]

theorem Negotiated.step {d : Option Descriptor} {p : Player ρ} (hn : Negotiated d p) (now : Nat)
    (c : Call ρ) :
    Negotiated (if Moment.forgets ⟨p, now, c⟩ then none else (Moment.descriptor? ⟨p, now, c⟩).or d)
      (p.perform now c).player := by
  cases c with
  | closed | resetSession =>
    simp only [perform, Done.of, resetSession_eq, closed_eq]
    exact ⟨rfl, rfl⟩
  | opened =>
    simp only [perform, Done.of, opened_eq]
    exact ⟨hn.capabilities, hn.routes⟩
  | request name params reply =>
    have hsame : ∃ rpc, (p.perform now (.request name params reply)).player =
        { p with rpc := rpc } := by
      simp only [perform, request]
      split
      · exact ⟨_, rfl⟩
      · exact ⟨p.rpc, rfl⟩
    obtain ⟨rpc, hrpc⟩ := hsame
    rw [hrpc]
    exact ⟨hn.capabilities, hn.routes⟩
  | execute command => exact hn.steady (governs_steady.execute command)
  | askPosition => exact hn.steady (governs_steady.send _ _)
  | tick =>
    have htick : Keeps (Steady (ρ := ρ)) (tick now) := .modify fun _ => ⟨rfl, rfl⟩
    exact hn.steady (.onlyIf htick _)
  | drain => exact ⟨hn.capabilities, hn.routes⟩
  | receive text =>
    simp only [perform, Done.of, Moment.forgets, Moment.descriptor?, Moment.inbound?]
    cases hr : p.rpc.receive text with
    | error fault =>
      rw [receive_error hr]
      exact hn
    | ok out =>
      obtain ⟨i, rpc⟩ := out
      rw [receive_eq hr]
      have hp : Negotiated d { p with rpc := rpc } := ⟨hn.capabilities, hn.routes⟩
      have hnoted :=
        hp.steady (.forSome (fun id => governs_steady.note (.strayResponse id)) i.strayId)
      have hend := dispatch_negotiates hnoted now i
      exact hend

theorem run_negotiated (run : Run ρ) : Negotiated (latest run.history) run.player := by
  refine run.induct (P := fun h p => Negotiated (latest h) p) (fun _ _ _ _ => ⟨rfl, rfl⟩) ?_
  intro h p now c hn
  rw [latest_concat]
  exact hn.step now c

/-- Descriptors that were read name known actions by their names only. -/
theorem latest_normal {h : List (Moment ρ)} {d : Descriptor} (hd : latest h = some d) :
    ∀ a ∈ d.actions, a.method.Normal := by
  obtain ⟨before, m, after, -, hm, -⟩ := (latest_eq_some h d).mp hd
  obtain ⟨i, -, hi⟩ := Option.bind_eq_some_iff.mp hm
  unfold descriptorIn at hi
  split at hi
  · obtain ⟨v, -, hv⟩ := Option.bind_eq_some_iff.mp hi
    exact Descriptor.actions_normal hv
  · cases hi

/-- The capabilities are the actions that the last usable descriptor since the socket closed names,
and the routes are those of the known ones. Nothing else matters: no earlier descriptor, no order
and no unknown action. -/
theorem routes_follow_capabilities (run : Run ρ) :
    (∀ d, latest run.history = some d ↔
      Since (·.descriptor? = some d) (fun m => m.forgets = false ∧ m.descriptor? = none)
        run.history) ∧
    run.player.capabilities = ((latest run.history).map .ofDescriptor).getD .empty ∧
    (∀ name, run.player.capabilities.contains (.ofMethod name) = true ↔
      ∃ d, latest run.history = some d ∧ ∃ a ∈ d.actions, a.method.method = name) ∧
    (∀ method, run.player.routes.resolve method =
      slotFor (fun name => run.player.capabilities.contains (.ofMethod name)) method) ∧
    ∀ other : Run ρ,
      (∀ a, a.isOther = false →
        other.player.capabilities.contains a = run.player.capabilities.contains a) →
      ∀ method, other.player.routes.resolve method = run.player.routes.resolve method := by
  have hresolve (run : Run ρ) (method : String) : run.player.routes.resolve method =
      slotFor (fun name => run.player.capabilities.contains (.ofMethod name)) method := by
    rw [(run_negotiated run).routes, (run_negotiated run).capabilities, resolve_routesFor]
  refine ⟨latest_eq_some run.history, (run_negotiated run).capabilities, ?_, hresolve run, ?_⟩
  · intro name
    rw [(run_negotiated run).capabilities, contains_capabilitiesOf]
    cases hd : latest run.history with
    | none => simp [announced]
    | some d =>
      simp only [announced, Option.elim_some, List.mem_map, Option.some.injEq, exists_eq_left']
      constructor
      · rintro ⟨a, ha, heq⟩
        exact ⟨a, ha, by rw [heq, Action.method_ofMethod]⟩
      · rintro ⟨a, ha, heq⟩
        have hnormal : a.method = .ofMethod a.method.method := latest_normal hd a ha
        exact ⟨a, ha, by rw [hnormal, heq]⟩
  · intro other hsame method
    rw [hresolve other, hresolve run]
    exact slotFor_congr (fun name hname => hsame (.ofMethod name) hname) method

end Player
end MediaRemote.Session
