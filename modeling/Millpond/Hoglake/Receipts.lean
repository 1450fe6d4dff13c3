import Millpond.Hoglake.Requests

set_option autoImplicit false

/-! # Receipts

A `write` that returns was answered: under the key of the payload it sent there is a commit. This file
says whose request that may be: one that was there before, another writer's, or one that the sink
made for a flush. -/

namespace Millpond.Hoglake

open Prog

variable {ρ V : Type} {cfg : SinkConfig} {be : Backend ρ V} {flushes : Flush ρ V → Prop}

/-! ## Requests made for a flush -/

variable (cfg) in
/-- The key names the offset ranges of the flush, and the objects hold its rows. -/
structure Payload.MadeFor (payload : Payload) (objects : List (Uri × List ρ)) (flush : Flush ρ V) :
    Prop where
  key : payload.KeyedFor cfg flush.identity
  covers : payload.Covers objects flush.batch.rows

theorem Payload.MadeFor.grow {payload : Payload} {objects objects' : List (Uri × List ρ)}
    {flush : Flush ρ V} (h : payload.MadeFor cfg objects flush) (hsub : ∀ o ∈ objects, o ∈ objects') :
    payload.MadeFor cfg objects' flush := ⟨h.key, h.covers.grow hsub⟩

variable (cfg flushes) in
/-- New requests are other writers', or made for one of these flushes. -/
def Asks (s s' : St ρ) : Prop :=
  s.world.Hears (fun request => ∃ flush, flushes flush ∧ request.MadeFor cfg s'.world.objects flush)
    s'.world

theorem Asks.of_none {s s' : St ρ} (h : s.world.Hears NoRequest s'.world) : Asks cfg flushes s s' :=
  h.mono fun _ => False.elim

theorem Fails.grows {R : St ρ → St ρ → Prop} {s s' : St ρ} {r : Raised} (h : Fails R s r s')
    (hR : R s s' → s.world.Grows s'.world) : s.world.Grows s'.world := by
  unfold Fails at h
  split at h
  · exact h
  · exact hR h

theorem commitPrepared_asks {s : St ρ} {flush : Flush ρ V} {payload : Payload} (known : flushes flush)
    (holds : Holds cfg flush payload s) :
    wp (commitPrepared : M ρ ℕ) (fun _ => Asks cfg flushes s) (fun _ => Asks cfg flushes s) s := by
  have hown : ∀ s' : St ρ, s.world.Grows s'.world → s.world.Hears (· = payload) s'.world →
      Asks cfg flushes s s' := by
    rintro s' hgrows hears
    refine hears.mono ?_
    rintro _ rfl
    exact ⟨flush, known, holds.key, holds.covers.grow hgrows.objects⟩
  refine wp_mono (wp_and (commitPrepared_spec cfg holds.prepared) (commitPrepared_hears holds.prepared))
    ?_ ?_
  · exact fun _ s' h => hown s' h.1.1.steps.grows h.2
  · exact fun _ s' h => hown s' (h.1.grows fun hkeeps => hkeeps.steps.grows) h.2

variable (be) in
/-- **A write requests what it makes for its flush**, or for the one whose payload it holds, however
    it ends. -/
theorem write_asks (flush : Flush ρ V) {s : St ρ} (known : flushes flush) (hs : Sound cfg flushes s) :
    wp (write cfg be flush) (fun _ => Asks cfg flushes s) (fun _ => Asks cfg flushes s) s := by
  have hrefl : Asks cfg flushes s s := .of_none (.refl _)
  unfold write
  rw [wp_ite]
  refine ⟨fun _ => hrefl, fun _ => ?_⟩
  rw [wp_ite]
  refine ⟨fun _ => hrefl, fun hskip => ?_⟩
  simp only [wp_bind, wp_get]
  rw [wp_ite]
  constructor
  · intro hreplay
    unfold isReplay at hreplay
    simp only [Bool.and_eq_true, decide_eq_true_eq] at hreplay
    -- the payload that is held was made for an earlier call, with the same ranges
    obtain ⟨payload, held⟩ := Option.isSome_iff_exists.1 hreplay.1.2
    obtain ⟨flush', known', hholds⟩ := hs.backed payload held
    exact commitPrepared_asks known' hholds
  · intro _
    have hrows : flush.batch.rows ≠ [] := by
      intro hnil
      exact hskip (by simp [isSkipped, hnil])
    have hdiscard : Hearing NoRequest (discardPrepared .superseded : M ρ PUnit) :=
      hearing_discardPrepared .superseded
    have hbuild : Hearing NoRequest (buildPayload cfg be flush) := hearing_buildPayload flush
    simp only [wp_bind]
    refine wp_mono (wp_and (discardPrepared_spec cfg fun _ _ => .superseded) (hdiscard s)) ?_
      (fun _ _ h => h.1.elim)
    rintro _ s₁ ⟨hun, hears₁⟩
    refine wp_mono (wp_and (buildPayload_spec flush (hs.noVerdict.steps hun.steps) hun.prepared hrows)
      (hbuild s₁)) ?_ (fun _ _ h => .of_none (hears₁.trans h.2))
    rintro _ s₂ ⟨⟨-, payload, hholds⟩, hears₂⟩
    have hears := hears₁.trans hears₂
    exact wp_mono (commitPrepared_asks known hholds)
      (fun _ s' h => (hears.mono fun _ => False.elim).trans h)
      (fun _ s' h => (hears.mono fun _ => False.elim).trans h)

/-! ## The answer -/

variable (cfg be) in
/-- The write of this flush in this state returns, and by then the commit under the key of a payload
    it sent is this request's. -/
def AnsweredBy (flush : Flush ρ V) (s : St ρ) (request : Payload) : Prop :=
  ∃ count s' payload c, write cfg be flush s = .ok count s' ∧
    (∃ events, s'.log = events ++ s.log ∧ .sent payload ∈ events) ∧
    s'.world.net.server.ledger.lookup payload.idempotencyKey = some c ∧ c.request = request

/-- **A write that returns was answered**, unless it skipped the batch: its ranges have a commit. -/
theorem write_answered {s s' : St ρ} {flush : Flush ρ V} {offsets : Identity} {count : ℕ}
    (hs : Sound cfg flushes s) (known : flushes flush) (hid : flush.identity = some offsets)
    (hwrite : write cfg be flush s = .ok count s') :
    isSkipped flush.batch = true ∨ ∃ uuid c, AnsweredBy cfg be flush s c.request ∧
      c.request.idempotencyKey = .uuid5 (flushName cfg (some uuid) offsets) ∧
      s'.world.net.server.ledger.lookup c.request.idempotencyKey = some c := by
  have hreturns := (wp_of_ok hwrite).1 (write_spec be flush known hs)
  cases hreturns with
  | skipped skip => exact Or.inl skip
  | answered s₁ flush' payload steps known' same holds returned sent =>
      have hid' : flush'.identity = some offsets := by
        rcases same with rfl | ⟨-, hsame⟩
        · exact hid
        · exact hsame.trans hid
      obtain ⟨c, hc, -⟩ := returned.receipt
      have hkey : c.request.idempotencyKey = payload.idempotencyKey :=
        (s'.world.net.server.keyed _ (Ledger.lookup_eq_some.1 hc)).symm
      refine Or.inr ⟨payload.expectedTableUuid, c, ?_, hkey.trans (holds.key offsets hid'), hkey ▸ hc⟩
      refine ⟨count, s', payload, c, hwrite, ?_, hc, rfl⟩
      obtain ⟨late, hlate⟩ := sent
      obtain ⟨early, hearly⟩ := steps.log_suffix
      refine ⟨late ++ .sent payload :: early, ?_, by simp⟩
      rw [← hlate, ← hearly, List.append_assoc, List.cons_append]

end Millpond.Hoglake
