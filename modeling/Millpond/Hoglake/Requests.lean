import Millpond.Hoglake.Walk

set_option autoImplicit false

/-! # What a write requests

Which commit requests a `write` can add to those the server has applied or that are on their way:
while it builds a payload none but those of other writers, and while it commits only the payload
itself. However the calls end, a killed process included. -/

namespace Millpond.Hoglake

open Prog

variable {ρ V : Type}

/-! ## New requests -/

/-- Another writer commits this at some turn. -/
def World.Others (w : World ρ) (request : Payload) : Prop :=
  ∃ n foreign, Move.commit request foreign ∈ (w.turns n).moves

/-- Requests that are new in `w'` are other writers' or `own`. -/
structure World.Hears (own : Payload → Prop) (w w' : World ρ) : Prop where
  turns : w'.turns = w.turns
  requests : ∀ request, w'.net.Requests request →
    w.net.Requests request ∨ w.Others request ∨ own request

/-- No request at all. -/
def NoRequest (_ : Payload) : Prop := False

variable {own : Payload → Prop}

theorem World.Hears.refl (w : World ρ) : w.Hears own w := ⟨rfl, fun _ h => Or.inl h⟩

theorem World.Hears.trans {w w' w'' : World ρ} (h : w.Hears own w') (h' : w'.Hears own w'') :
    w.Hears own w'' := by
  refine ⟨h'.turns.trans h.turns, fun request hr => ?_⟩
  rcases h'.requests request hr with hold | ⟨n, foreign, hmove⟩ | hown
  · exact h.requests request hold
  · exact Or.inr (Or.inl ⟨n, foreign, h.turns ▸ hmove⟩)
  · exact Or.inr (Or.inr hown)

theorem World.Hears.mono {own' : Payload → Prop} {w w' : World ρ} (h : w.Hears own w')
    (hown : ∀ request, own request → own' request) : w.Hears own' w' :=
  ⟨h.turns, fun request hr => (h.requests request hr).imp id fun hnew => hnew.imp id (hown request)⟩

/-- The ledger, the requests on their way and the turns are the same. -/
structure World.SameRequests (w w' : World ρ) : Prop where
  ledger : w'.net.server.ledger = w.net.server.ledger
  inFlight : w'.net.inFlight = w.net.inFlight
  turns : w'.turns = w.turns

theorem Net.Requests.of_eq {net net' : Net} {request : Payload} (h : net'.Requests request)
    (hledger : net'.server.ledger = net.server.ledger) (hflight : net'.inFlight = net.inFlight) :
    net.Requests request := by
  unfold Net.Requests at h ⊢
  rwa [hledger, hflight] at h

theorem World.SameRequests.hears {w w' : World ρ} (h : w.SameRequests w') : w.Hears own w' :=
  ⟨h.turns, fun _ hr => Or.inl (hr.of_eq h.ledger h.inFlight)⟩

/-- A commit adds at most its own request. -/
theorem Net.requests_commit {net : Net} {refusal : Option Refusal} {payload request : Payload}
    (h : (net.onServer fun s => (s.commit refusal payload).2).Requests request) :
    net.Requests request ∨ request = payload := by
  rcases h with ⟨key, c, hc, rfl⟩ | hflight
  · rcases (Server.commit_ends refusal payload net.server).request hc with hold | hnew
    · exact Or.inl (Or.inl ⟨key, c, hold, rfl⟩)
    · exact Or.inr hnew
  · exact Or.inl (Or.inr hflight)

theorem Net.requests_move {net : Net} {move : Move} {request : Payload}
    (h : (net.move move).Requests request) :
    net.Requests request ∨ ∃ foreign, move = .commit request foreign := by
  cases move with
  | commit payload foreign =>
      rcases Net.requests_commit h with hold | rfl
      · exact Or.inl hold
      · exact Or.inr ⟨foreign, rfl⟩
  | createTable shape =>
      refine Or.inl ?_
      have hmove : (if net.server.table.isNone then net.onServer (Server.createTable shape)
          else net).Requests request := h
      split at hmove
      · exact hmove.of_eq rfl rfl
      · exact hmove
  | alterTable shape =>
      refine Or.inl (h.of_eq ?_ rfl)
      show (net.server.alterTo shape).ledger = net.server.ledger
      cases htable : net.server.table with
      | none => rw [Server.alterTo_none htable]
      | some t => exact (Server.alterTo_some _ htable).2.2.2.1
  | deliver i =>
      refine Or.inl ?_
      cases hpayload : net.inFlight[i]? with
      | none =>
          have hmove : net.move (.deliver i) = net := by simp only [Net.move, hpayload]
          rwa [hmove] at h
      | some payload =>
          -- a request that arrives was on its way
          have hmove : net.move (.deliver i) = { net with
              server := (net.server.commit none payload).2
              inFlight := net.inFlight.eraseIdx i } := by
            simp only [Net.move, hpayload]
          rw [hmove] at h
          rcases h with hledger | hflight
          · rcases Net.requests_commit (Or.inl hledger) with hold | rfl
            · exact hold
            · exact Or.inr (List.mem_of_getElem? hpayload)
          · exact Or.inr (List.eraseIdx_subset hflight)
  | lose i =>
      refine Or.inl ?_
      rcases h with hledger | hflight
      · exact Or.inl hledger
      · exact Or.inr (List.eraseIdx_subset hflight)
  | _ => exact Or.inl (h.of_eq rfl rfl)

theorem Net.requests_moves {request : Payload} (moves : List Move) : ∀ net : Net,
    (net.moves moves).Requests request →
      net.Requests request ∨ ∃ foreign, Move.commit request foreign ∈ moves := by
  induction moves with
  | nil => exact fun net h => Or.inl h
  | cons move rest ih =>
      intro net h
      rcases ih (net.move move) h with hold | ⟨foreign, hmem⟩
      · rcases Net.requests_move hold with hfirst | ⟨foreign, rfl⟩
        · exact Or.inl hfirst
        · exact Or.inr ⟨foreign, List.mem_cons_self⟩
      · exact Or.inr ⟨foreign, List.mem_cons_of_mem _ hmem⟩

theorem World.hears_nextTurn (w : World ρ) : w.Hears own w.nextTurn := by
  refine ⟨rfl, fun request hr => ?_⟩
  rcases Net.requests_moves _ _ hr with hold | ⟨foreign, hmem⟩
  · exact Or.inl hold
  · exact Or.inr (Or.inl ⟨w.turn, foreign, hmem⟩)

/-! ## Programs -/

variable (own) in
/-- However the program ends, it added no request but those of others and `own`. -/
def Hearing {α : Type} (x : M ρ α) : Prop := Within (fun s s' => s.world.Hears own s'.world) x

variable (own) in
/-- Nothing but a commit requests anything. -/
theorem tracks_hears : Tracks (fun s s' : St ρ => s.world.Hears own s'.world) own where
  refl := fun s => .refl s.world
  trans := fun _ _ _ h h' => h.trans h'
  turn := fun s => s.world.hears_nextTurn
  sink := fun s _ _ => .refl s.world
  logs := fun s _ => .refl s.world
  world := fun s w h => World.SameRequests.hears ⟨h.ledger, h.inFlight, h.turns⟩
  commit := by
    intro s refusal payload hown
    refine ⟨rfl, fun request hr => (Net.requests_commit hr).imp id fun heq => Or.inr ?_⟩
    exact heq ▸ hown
  enqueue := by
    intro s payload hown
    refine ⟨rfl, fun request hr => ?_⟩
    rcases hr with hledger | hflight
    · exact Or.inl (Or.inl hledger)
    · rcases List.mem_append.1 hflight with hold | hnew
      · exact Or.inl (Or.inr hold)
      · exact Or.inr (Or.inr (List.mem_singleton.1 hnew ▸ hown))

variable {cfg : SinkConfig} {be : Backend ρ V}

theorem hearing_discardPrepared (reason : OrphanReason) :
    Hearing own (discardPrepared reason : M ρ PUnit) := (tracks_hears own).walk_discardPrepared reason

/-- **Building a payload requests nothing.** -/
theorem hearing_buildPayload (flush : Flush ρ V) : Hearing own (buildPayload cfg be flush) :=
  (tracks_hears own).walk_buildPayload flush

/-- **Committing requests the payload held and nothing else.** -/
theorem commitPrepared_hears {s : St ρ} {payload : Payload} (held : s.sink.prepared = some payload) :
    wp (commitPrepared : M ρ ℕ) (fun _ s' => s.world.Hears (· = payload) s'.world)
      (fun _ s' => s.world.Hears (· = payload) s'.world) s :=
  (tracks_hears (· = payload)).walk_commitPrepared fun _ hpayload' =>
    Option.some.inj (Eq.trans hpayload'.symm held)

end Millpond.Hoglake
