import MediaRemote.Proofs.Session.Moments

namespace MediaRemote

/-- Whether the command asks only what was announced. Information and capabilities are always asked
for, and what is left is not for the player. -/
def Command.isGated : Command → Bool
  | .play | .pause | .stop | .next | .volume _ | .shuffle _ | .loop _ | .filter _ | .change _
  | .list _ => true
  | .about _ | .load | .changePlayer _ | .reconnect | .quit => false

namespace Session

open Json (Value)
open Wire (Action CapabilitySet Request)
open Step PlayerStep

variable {ρ : Type}

def Notice.ofCommand? : Command → Option Notice
  | .changePlayer url => some (.cannotChangePlayer url)
  | .reconnect => some .reconnectNeedsClient
  | .quit => some .quitNeedsClient
  | _ => none

namespace Player

variable (p : Player ρ)

def gated (gate : List Action) (a : Action) (params : Value) : Option (Action × Value) :=
  if p.capabilities.containsAny gate then some (a, params) else none

def queueable (media : Value) : Option Value :=
  ((media.member? "next").bind Value.present).filter fun _ => p.capabilities.contains .setNext

def question : Command → Option (Action × Value)
  | .play => p.gated [.play, .pause] .play .null
  | .pause => p.gated [.pause] .pause .null
  | .stop => p.gated [.stop] .stop .null
  | .next => p.gated [.next] .next .null
  | .volume step => p.gated [.volume] .volume (volumeParams step)
  | .shuffle on => p.gated [.options] .options (.object [("random", .bool on)])
  | .loop on => p.gated [.options] .options (.object [("loop", .bool on)])
  | .filter params => p.gated [.filter] .filter params
  | .change media =>
    match p.queueable media with
    | some next => some (.setNext, .object [("id", next)])
    | none =>
      if ((media.member? "media").bind Value.present).isSome then p.gated [.change] .change media
      else none
  | .about (some id) => some (.info, .object [("id", .integer id)])
  | .about none => some (.status, .null)
  | .list query =>
    if p.capabilities.contains .list then some (windowQuestion (query.resolve p.pageSize)) else none
  | .load => some (.capabilities, .null)
  | .changePlayer _ | .reconnect | .quit => none

def asking (q : Option (Action × Value)) : Player ρ := { p with rpc := p.rpc.askAll q.toList }

theorem sendGated_eq (gate : List Action) (a : Action) (params : Value) :
    sendGated gate a params p = (p.asking (p.gated gate a params), []) := by
  unfold sendGated gated
  split
  · rw [send_eq]
    rfl
  · rfl

theorem executeChange_eq (media : Value) :
    executeChange media p = (p.asking (p.question (.change media)), []) := by
  have hnext : ((media.member? "next").bind Value.present).filter
      (fun _ => p.capabilities.contains .setNext) = p.queueable media := rfl
  simp only [executeChange, hnext, question]
  cases p.queueable media with
  | some id => exact send_eq _ _ p
  | none =>
    cases ((media.member? "media").bind Value.present).isSome with
    | true => exact p.sendGated_eq [.change] .change media
    | false => rfl

theorem list_eq (query : Wire.WindowQuery) :
    list query p = (p.asking (p.question (.list query)), []) := by
  simp only [list, question]
  cases p.capabilities.contains .list with
  | true => exact send_eq _ _ p
  | false => rfl

/-- A command asks its question and does nothing else. -/
theorem execute_eq (command : Command) :
    execute command p =
      (p.asking (p.question command), (Notice.ofCommand? command).toList.map .notice) := by
  cases command with
  | change media => exact p.executeChange_eq media
  | about id => cases id <;> exact send_eq _ _ p
  | list query => exact p.list_eq query
  | load => exact send_eq _ _ p
  | changePlayer | reconnect | quit => rfl
  | _ => exact p.sendGated_eq _ _ _

section Announced

variable {p} {q : Action × Value}

/-- The action of the method was announced; for playing, pausing will do. -/
def Announced (p : Player ρ) (method : String) : Prop :=
  p.capabilities.contains (.ofMethod method) = true ∨
    (method = "play" ∧ p.capabilities.contains .pause = true)

theorem announced_of_contains {a : Action} (ha : a.isOther = false)
    (h : p.capabilities.contains a = true) : p.Announced a.method := by
  left
  rwa [Action.ofMethod_method ha]

theorem announced_of_gated {a : Action} {params : Value} (ha : a.isOther = false)
    (h : p.gated [a] a params = some q) : p.Announced q.1.method := by
  unfold gated at h
  split at h
  · rename_i hc
    obtain rfl := Option.some.inj h
    exact announced_of_contains ha (by simpa [CapabilitySet.containsAny] using hc)
  · cases h

/-- Playing is asked for if playing or pausing was announced. -/
theorem announced_of_play {params : Value} (h : p.gated [.play, .pause] .play params = some q) :
    p.Announced q.1.method := by
  unfold gated at h
  split at h
  · rename_i hc
    obtain rfl := Option.some.inj h
    rcases (by simpa [CapabilitySet.containsAny] using hc :
      p.capabilities.contains .play = true ∨ p.capabilities.contains .pause = true) with hc | hc
    · exact announced_of_contains rfl hc
    · exact .inr ⟨rfl, hc⟩
  · cases h

theorem announced_of_change {media : Value} (h : p.question (.change media) = some q) :
    p.Announced q.1.method := by
  simp only [question] at h
  split at h
  · rename_i hn
    obtain ⟨-, hc⟩ := Option.filter_eq_some_iff.mp hn
    obtain rfl := Option.some.inj h
    exact announced_of_contains rfl hc
  · split at h
    · exact announced_of_gated rfl h
    · cases h

theorem announced_of_question {command : Command} (hg : command.isGated = true)
    (h : p.question command = some q) : p.Announced q.1.method := by
  cases command with
  | play => exact announced_of_play h
  | change media => exact announced_of_change h
  | list query =>
    simp only [question] at h
    split at h
    · rename_i hc
      obtain rfl := Option.some.inj h
      exact announced_of_contains rfl hc
    · cases h
  | about | load | changePlayer | reconnect | quit => cases hg
  | pause | stop | next | volume | shuffle | loop | filter => exact announced_of_gated rfl h

end Announced

def requestFor (q : Action × Value) : Option Request :=
  if p.isConnected then some (.new p.rpc.nextId q.1.method q.2) else none

theorem asking_eq (q : Option (Action × Value)) :
    p.asking q =
      { p with rpc := p.rpc.extend ((q.bind p.requestFor).toList.map fun r => ⟨r, none⟩) } := by
  cases q with
  | none => simp [asking, Rpc.askAll, Rpc.extend_nil]
  | some q =>
    unfold requestFor isConnected
    cases ho : p.rpc.isOpen <;>
      simp [asking, Rpc.askAll, Rpc.ask, Rpc.extend_nil, Rpc.next, ho]

variable {p}

theorem method_of_sent {command : Command} {q : Request}
    (h : (p.question command).bind p.requestFor = some q) :
    ∃ x, p.question command = some x ∧ q.method = x.1.method := by
  obtain ⟨x, hx, hq⟩ := Option.bind_eq_some_iff.mp h
  refine ⟨x, hx, ?_⟩
  unfold requestFor at hq
  split at hq
  · obtain rfl := Option.some.inj hq
    rfl
  · cases hq

theorem note_of_gated {command : Command} (hg : command.isGated = true) :
    Notice.ofCommand? command = none := by
  cases command <;> first | rfl | cases hg

/-- At most one request is queued for a command. Of all commands that an announcement decides it is
for an action that was announced (for playing, pausing will do), and without one nothing happens at
all. Information is asked for whenever the player is connected, whatever was announced. -/
theorem commands_ask_what_was_announced (run : Run ρ) (command : Command) :
    ∃ sent : Option Request,
      (execute command run.player).1.rpc =
        run.player.rpc.extend (sent.toList.map fun q => ⟨q, none⟩) ∧
      (command.isGated = true →
        (sent = none → execute command run.player = (run.player, [])) ∧
        ∀ q, sent = some q →
          run.player.capabilities.contains (.ofMethod q.method) = true ∨
            (q.method = "play" ∧ run.player.capabilities.contains .pause = true)) ∧
      ∀ id, command = .about id →
        sent.map (·.method) =
          if run.player.isConnected then some (if id.isSome then "info" else "status")
          else none := by
  refine ⟨(run.player.question command).bind run.player.requestFor, ?_, ?_, ?_⟩
  · rw [execute_eq, asking_eq]
  · intro hg
    constructor
    · intro hnone
      rw [execute_eq, asking_eq, hnone, note_of_gated hg]
      simp [Rpc.extend_nil]
    · intro q hq
      obtain ⟨x, hx, hm⟩ := method_of_sent hq
      rw [hm]
      exact announced_of_question hg hx
  · rintro id rfl
    cases id <;> cases hc : run.player.isConnected <;> simp [question, requestFor, hc] <;> rfl

def withoutActions : Run Unit :=
  ⟨5, 1000, false, .live,
    [(0, .opened),
     (1, .receive <| Value.text <| .object
       [("id", .integer 0), ("result", .object [("actions", .array [])])])]⟩

/-- The state is asked for although it was not announced. -/
theorem state_is_asked_for_unannounced :
    withoutActions.player.capabilities.contains .status = false ∧
      ∃ q : Request, q.method = "status" ∧
        (execute (.about none) withoutActions.player).1.rpc =
          withoutActions.player.rpc.extend [⟨q, none⟩] := by
  have hc : withoutActions.player.isConnected = true := by decide +kernel
  refine ⟨by decide +kernel, ?_⟩
  obtain ⟨sent, hrpc, -, habout⟩ := commands_ask_what_was_announced withoutActions (.about none)
  have hm := habout none rfl
  rw [hc, if_pos rfl] at hm
  obtain ⟨q, rfl, hq⟩ := Option.map_eq_some_iff.mp hm
  exact ⟨q, hq, hrpc⟩

end Player
end Session
end MediaRemote
