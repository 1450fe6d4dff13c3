import Millpond.Hoglake.Preparation

set_option autoImplicit false

/-! # Committing and runs as steps

What the answer to a commit tells the sink, the arms it takes, `write`, and whole runs: a run of
the sink is a sequence of steps. -/

namespace Millpond.Hoglake

open Prog

variable {ρ V : Type} {cfg : SinkConfig} {be : Backend ρ V}

/-! ## The answer to a commit -/

/-- What an error answered to a commit says about the server. -/
structure Refused (server : Server) (payload : Payload) (e : HoglakeError) : Prop where
  reused : e.isReusedKey = true →
    ∃ c, server.ledger.lookup payload.idempotencyKey = some c ∧ c.request ≠ payload
  moved : e.isDestinationMoved = true →
    server.ledger.lookup payload.idempotencyKey = none ∧ server.judge payload = some e
  answered : e.isReusedKey = false → e.isAnsweredRefusal = true →
    server.ledger.lookup payload.idempotencyKey = none

theorem Server.CommitEnds.refused_of {s s' : Server} {payload : Payload} {e : HoglakeError}
    (h : s.CommitEnds payload (some e) s') : s' = s ∧ Refused s payload e := by
  cases h with
  | reused c receipt other =>
      refine ⟨rfl, fun _ => ⟨c, receipt, other⟩, fun hmoved => absurd hmoved (by decide +kernel), ?_⟩
      exact fun hnot => absurd hnot (by decide +kernel)
  | refused refusal fresh =>
      refine ⟨rfl, fun hreused => ?_, fun hmoved => ?_, fun _ _ => fresh⟩
      · exact absurd (hreused.symm.trans refusal.notReusedKey) (by simp)
      · exact absurd (hmoved.symm.trans refusal.notMoved) (by simp)
  | judged e fresh verdict =>
      refine ⟨rfl, fun hreused => ?_, fun _ => ⟨fresh, verdict⟩, fun _ _ => fresh⟩
      exact absurd (hreused.symm.trans (Server.not_reusedKey_of_judge verdict)) (by simp)

/-- A gateway's error is no answer of the server. -/
theorem GatewayError.refused (error : GatewayError) (server : Server) (payload : Payload) :
    Refused server payload error.error := by
  refine ⟨fun h => ?_, fun h => ?_, fun _ h => ?_⟩
  · exact absurd (h.symm.trans error.notReusedKey) (by simp)
  · exact absurd (h.symm.trans error.notMoved) (by simp)
  · exact absurd (h.symm.trans error.notAnswered) (by simp)

/-- The client's cache is replaced. -/
def St.withCache (s : St ρ) (cache : Option (TableInfo × ℚ)) : St ρ :=
  { s with world := { s.world with handle := { s.world.handle with cache := cache } } }

/-- The request has a receipt of its own. -/
def Server.Stands (server : Server) (payload : Payload) : Prop :=
  ∃ c, server.ledger.lookup payload.idempotencyKey = some c ∧ c.request = payload

variable (cfg) in
/-- How sending the held payload fails. -/
inductive CommitFails (s : St ρ) (payload : Payload) : Raised → St ρ → Prop where
  | refused (e : HoglakeError) (s₁ : St ρ) (cache : Option (TableInfo × ℚ))
      (standing : Standing cfg s s₁) (cache_eq : cache = s₁.world.handle.cache ∨ cache = none)
      (refused : Refused s₁.world.net.server payload e) :
      CommitFails s payload ⟨.hoglake e, []⟩ (s₁.withCache cache)
  | lost (s₁ : St ρ) (standing : Standing cfg s s₁) : CommitFails s payload ⟨.transport, []⟩ s₁
  | killed (s₁ : St ρ) (grows : s.world.Grows s₁.world) : CommitFails s payload ⟨.killed, []⟩ s₁

theorem wp_dropCache (drops hasTable : Bool) {Q : PUnit → St ρ → Prop} {E : Raised → St ρ → Prop}
    {s : St ρ} (h : ∀ cache, cache = s.world.handle.cache ∨ cache = none → Q ⟨⟩ (s.withCache cache)) :
    wp (dropCache drops hasTable) Q E s := by
  unfold dropCache
  by_cases hdrops : (drops && hasTable) = true
  · rw [if_pos hdrops]
    exact h none (Or.inr rfl)
  · rw [if_neg hdrops]
    exact h s.world.handle.cache (Or.inl rfl)

/-- Handled, still on its way or lost: one step at most. -/
theorem Standing.dispatch {s : St ρ} {payload : Payload} (held : s.sink.prepared = some payload)
    (handling : Handling) :
    Standing cfg s { s with world := s.world.dispatch handling payload } := by
  cases handling with
  | now => exact ⟨.single (.commit payload none held), rfl, rfl, rfl⟩
  | later => exact ⟨.single (.queue payload held), rfl, rfl, rfl⟩
  | never => exact .refl s

theorem answerCommit_spec (cfg : SinkConfig) {s : St ρ} {payload : Payload} (held : s.sink.prepared = some payload)
    (turn : Turn) (hasTable : Bool) (refusal : Option Refusal) :
    wp (answerCommit turn payload hasTable refusal)
      (fun _ s' => Standing cfg s s' ∧ s'.world.net.server.Stands payload)
      (CommitFails cfg s payload) s := by
  unfold answerCommit
  simp only [wp_bind, wp_get, wp_onWorld]
  have hends := Server.commit_ends refusal payload s.world.net.server
  have hstand : Standing cfg s { s with
      world := s.world.onServer fun server => (server.commit refusal payload).2 } :=
    ⟨.single (.commit payload refusal held), rfl, rfl, rfl⟩
  cases hanswer : (s.world.net.server.commit refusal payload).1 with
  | none =>
      rw [hanswer] at hends
      exact ⟨hstand, hends.stands⟩
  | some e =>
      rw [hanswer] at hends
      simp only [wp_bind, wp_raise]
      refine wp_dropCache _ _ (fun cache hcache => ?_)
      obtain ⟨hsame, hrefused⟩ := hends.refused_of
      refine .refused e _ cache hstand hcache ?_
      show Refused (s.world.net.server.commit refusal payload).2 payload e
      rwa [hsame]

theorem commitPreparedCall_spec (cfg : SinkConfig) {s : St ρ} {payload : Payload}
    (held : s.sink.prepared = some payload) (hasTable : Bool) :
    wp (commitPreparedCall payload hasTable)
      (fun _ s' => Standing cfg s s' ∧ s'.world.net.server.Stands payload)
      (CommitFails cfg s payload) s := by
  unfold commitPreparedCall
  simp only [wp_bind, wp_takeTurn]
  have hturn : Standing cfg s
      (s.moved s.world.nextTurn (noteResponse s.turn s.sink.retryAfter)) :=
    Standing.moved s s.world.evolves_nextTurn _
  have held' : (s.moved s.world.nextTurn (noteResponse s.turn s.sink.retryAfter)).sink.prepared =
      some payload := held
  have hanswer : ∀ refusal, wp (answerCommit s.turn payload hasTable refusal)
      (fun _ s' => Standing cfg s s' ∧ s'.world.net.server.Stands payload)
      (CommitFails cfg s payload)
      (s.moved s.world.nextTurn (noteResponse s.turn s.sink.retryAfter)) := by
    intro refusal
    refine wp_mono (answerCommit_spec cfg held' s.turn hasTable refusal) ?_ ?_
    · exact fun _ s' h => ⟨hturn.trans h.1, h.2⟩
    · intro r s' h
      cases h with
      | refused e s₁ cache standing cache_eq refused =>
          exact .refused e s₁ cache (hturn.trans standing) cache_eq refused
      | lost _ standing => exact .lost _ (hturn.trans standing)
      | killed _ grows => exact .killed _ (hturn.grows.trans grows)
  cases hfate : s.turn.fate with
  | answered => exact hanswer none
  | refused e => exact hanswer (Refusal.of e)
  | lost handling => exact .lost _ (hturn.trans (Standing.dispatch held' handling))
  | failed e handling =>
      simp only [wp_bind, wp_onWorld, wp_raise]
      refine wp_dropCache _ _ (fun cache hcache => ?_)
      exact .refused e.error _ cache (hturn.trans (Standing.dispatch held' handling)) hcache
        (e.refused _ _)
  | killed handling =>
      exact .killed _ (hturn.trans (Standing.dispatch held' handling)).grows

/-! ## The arms of a commit -/

/-- Why the held payload may go for this reason is known. -/
theorem discardPrepared_spec (cfg : SinkConfig) {s : St ρ} {reason : OrphanReason}
    (hwhy : ∀ payload, s.sink.prepared = some payload → Discardable s payload reason) :
    wp (discardPrepared reason) (fun _ s' => Unheld cfg s s') (fun _ _ => False) s := by
  unfold discardPrepared
  simp only [wp_bind, wp_get]
  cases held : s.sink.prepared with
  | none => exact ⟨.refl, held⟩
  | some payload =>
      unfold clearPrepared
      simp only [wp_bind, wp_get, wp_emit, wp_countOrphans, wp_onSink]
      exact ⟨.single (.discard payload reason held (hwhy payload held)), rfl⟩

@[simp] theorem wp_dropCachedShape {Q : PUnit → St ρ → Prop} {E : Raised → St ρ → Prop} (s : St ρ)
    (cache : Option (TableInfo × ℚ)) :
    wp dropCachedShape Q E (s.withCache cache) ↔ Q ⟨⟩ (s.dropShape cache) := Iff.rfl

variable (cfg) in
/-- Steps after which the payload is gone, or held as before. -/
structure Keeps (s s' : St ρ) : Prop where
  steps : Steps cfg s s'
  held : s'.sink.prepared = none ∨ s'.sink.held = s.sink.held

theorem Unheld.keeps {s s' : St ρ} (h : Unheld cfg s s') : Keeps cfg s s' :=
  ⟨h.steps, Or.inl h.prepared⟩

theorem Standing.keeps {s s' : St ρ} (h : Standing cfg s s') : Keeps cfg s s' :=
  ⟨h.steps, Or.inr h.held⟩

theorem Keeps.after {s s₁ s' : St ρ} (h : Keeps cfg s₁ s') (hs : Standing cfg s s₁) :
    Keeps cfg s s' :=
  ⟨hs.steps.trans h.steps, h.held.imp id fun hheld => hheld.trans hs.held⟩

variable (cfg) in
/-- A write that returned: the payload is let go, and its key has a receipt. The count is the rows it was
    held for when the receipt is its own, else zero. -/
structure Returned (s : St ρ) (payload : Payload) (count : ℕ) (s' : St ρ) : Prop where
  steps : Steps cfg s s'
  prepared : s'.sink.prepared = none
  receipt : ∃ c, s'.world.net.server.ledger.lookup payload.idempotencyKey = some c ∧
    (c.request = payload ∧ count = s.sink.preparedRows ∨ c.request ≠ payload ∧ count = 0)

theorem Returned.after {s s₁ s' : St ρ} {payload : Payload} {count : ℕ}
    (h : Returned cfg s₁ payload count s') (hs : Standing cfg s s₁) :
    Returned cfg s payload count s' := by
  have hrows : s₁.sink.preparedRows = s.sink.preparedRows :=
    congrArg (fun held => held.2.1) hs.held
  exact ⟨hs.steps.trans h.steps, h.prepared, hrows ▸ h.receipt⟩

/-- The shape cached here and in the client goes first, whatever the refusal. -/
theorem Standing.dropShape (s : St ρ) {cache : Option (TableInfo × ℚ)}
    (h : cache = s.world.handle.cache ∨ cache = none) : Standing cfg s (s.dropShape cache) :=
  ⟨.single (.dropShape cache h), rfl, rfl, rfl⟩

theorem movedReason_spec {s : St ρ} {payload : Payload} {e : HoglakeError}
    (held : s.sink.prepared = some payload) (hmoved : e.isDestinationMoved = true)
    (h : Refused s.world.net.server payload e) (payload' : Payload)
    (held' : s.sink.prepared = some payload') : Discardable s payload' (movedReason e) := by
  obtain rfl : payload = payload' := by simpa [held] using held'
  exact .moved e (h.moved hmoved).1 (h.moved hmoved).2 hmoved

theorem forgetDestination_spec {s s₁ : St ρ} (e : HoglakeError) (h : Unheld cfg s s₁) :
    wp (forgetDestination e) (fun _ s' => Unheld cfg s s') (fun _ _ => False) s₁ := by
  unfold forgetDestination
  split
  · exact ⟨h.steps.tail .reset, h.prepared⟩
  · exact ⟨h.steps.tail (.dropShape s₁.world.handle.cache (Or.inl rfl)), h.prepared⟩

theorem destinationMoved_spec (cfg : SinkConfig) {s : St ρ} {payload : Payload} {e : HoglakeError}
    (held : s.sink.prepared = some payload) (hmoved : e.isDestinationMoved = true)
    (h : Refused s.world.net.server payload e) {Q : ℕ → St ρ → Prop} :
    wp (destinationMoved e) Q (Fails (Keeps cfg) s) s := by
  unfold destinationMoved
  simp only [wp_bind, wp_raise]
  refine wp_mono (discardPrepared_spec cfg (movedReason_spec held hmoved h)) ?_ (fun _ _ h => h.elim)
  intro _ s₁ hun
  refine wp_mono (forgetDestination_spec e hun) (fun _ s' hun' => ?_) (fun _ _ h => h.elim)
  exact .of hun'.keeps hun'.steps.grows

theorem discardRefused_spec {s s₁ : St ρ} {payload : Payload} {e : HoglakeError}
    (held : s₁.sink.prepared = some payload) (hreused : e.isReusedKey = false)
    (h : Refused s₁.world.net.server payload e) (hs : Standing cfg s s₁) :
    wp (discardRefused e) (fun _ s' => Keeps cfg s s') (fun _ _ => False) s₁ := by
  unfold discardRefused
  by_cases hanswered : e.isAnsweredRefusal = true
  · rw [if_pos hanswered]
    refine wp_mono (discardPrepared_spec cfg ?_) (fun _ _ hun => hun.keeps.after hs) (fun _ _ h => h)
    intro payload' held'
    obtain rfl : payload = payload' := by simpa [held] using held'
    exact .refused (h.answered hreused hanswered)
  · rw [if_neg hanswered]
    exact hs.keeps

theorem commitRefused_spec {s : St ρ} {payload : Payload} {e : HoglakeError}
    {cache : Option (TableInfo × ℚ)} (held : s.sink.prepared = some payload)
    (hcache : cache = s.world.handle.cache ∨ cache = none)
    (h : Refused s.world.net.server payload e) :
    wp (commitRefused payload e) (fun count s' => Returned cfg s payload count s')
      (Fails (Keeps cfg) s) (s.withCache cache) := by
  unfold commitRefused
  rw [wp_bind, wp_dropCachedShape]
  have hdrop : Standing cfg s (s.dropShape cache) := Standing.dropShape s hcache
  have held' : (s.dropShape cache).sink.prepared = some payload := held
  have h' : Refused (s.dropShape cache).world.net.server payload e := h
  by_cases hreused : e.isReusedKey = true
  · rw [if_pos hreused]
    obtain ⟨c, receipt, other⟩ := h'.reused hreused
    unfold acceptAlreadyPublished clearPrepared
    simp only [wp_bind, wp_emit, wp_countOrphans, wp_onSink, wp_pure]
    have hstep : Step cfg (s.dropShape cache) (((s.dropShape cache).note (.alreadyPublished payload)
        |>.report payload.uris .alreadyPublished).clear) :=
      .alreadyPublished payload c held' receipt other
    have hreturned : Returned cfg (s.dropShape cache) payload 0
        (((s.dropShape cache).note (.alreadyPublished payload)
          |>.report payload.uris .alreadyPublished).clear) := by
      exact ⟨.single hstep, rfl, c, hstep.grows.server.receipts _ c receipt, Or.inr ⟨other, rfl⟩⟩
    exact hreturned.after hdrop
  · rw [if_neg hreused]
    by_cases hmoved : e.isDestinationMoved = true
    · rw [if_pos hmoved]
      refine wp_mono (destinationMoved_spec cfg held' hmoved h') (fun _ _ h => h) ?_
      exact fun r s' hf => hf.after hdrop.grows fun hk => hk.after hdrop
    · rw [if_neg hmoved]
      simp only [wp_bind, wp_raise]
      refine wp_mono (discardRefused_spec held' (by simpa using hreused) h' hdrop) ?_
        (fun _ _ h => h.elim)
      exact fun _ s' hk => .of hk hk.steps.grows

/-- `_commit_prepared` on the held payload, which it sends. -/
theorem commitPrepared_spec (cfg : SinkConfig) {s : St ρ} {payload : Payload} (held : s.sink.prepared = some payload) :
    wp (commitPrepared : M ρ ℕ)
      (fun count s' => Returned cfg s payload count s' ∧ .sent payload :: s.log <:+ s'.log)
      (Fails (Keeps cfg) s) s := by
  unfold commitPrepared
  simp only [wp_bind, wp_get, held]
  have hsend : Standing cfg s (s.send payload) := ⟨.single (.send payload held), rfl, rfl, rfl⟩
  show wp _ _ _ (s.send payload)
  have held' : (s.send payload).sink.prepared = some payload := held
  rw [wp_tryHoglake]
  simp only [wp_bind, wp_pure]
  have hsent : ∀ {s₁ : St ρ} (s' : St ρ), Standing cfg (s.send payload) s₁ → Steps cfg s₁ s' →
      .sent payload :: s.log <:+ s'.log := fun s' hs₁ hsteps =>
    hs₁.steps.log_suffix.trans hsteps.log_suffix
  refine wp_mono (commitPreparedCall_spec cfg held' _) ?_ ?_
  · rintro _ s₁ ⟨hs₁, c, receipt, same⟩
    unfold commitAnswered clearPrepared
    simp only [wp_bind, wp_get, wp_onSink, wp_pure]
    have held₁ : s₁.sink.prepared = some payload := hs₁.prepared.trans held'
    have hreturned : Returned cfg s₁ payload s₁.sink.preparedRows s₁.clear :=
      ⟨.single (.published payload c held₁ receipt same), rfl, c, receipt, Or.inl ⟨same, rfl⟩⟩
    exact ⟨hreturned.after (hsend.trans hs₁), hsent s₁.clear hs₁ hreturned.steps⟩
  · intro r s' h
    cases h with
    | refused e s₁ cache standing cache_eq refused =>
        have held₁ : s₁.sink.prepared = some payload := standing.prepared.trans held'
        have hs₁ := hsend.trans standing
        refine wp_mono (commitRefused_spec held₁ cache_eq refused)
          (fun _ _ h => ⟨h.after hs₁, hsent _ standing h.steps⟩) ?_
        exact fun _ _ h => h.after hs₁.grows fun hk => hk.after hs₁
    | lost _ standing => exact .of (hsend.trans standing).keeps (hsend.trans standing).grows
    | killed _ grows =>
        unfold Fails
        rw [if_pos rfl]
        exact hsend.grows.trans grows

/-! ## Writes -/

theorem Payload.Covers.grow {payload : Payload} {objects objects' : List (Uri × List ρ)}
    {rows : List ρ} (h : payload.Covers objects rows) (hsub : ∀ o ∈ objects, o ∈ objects') :
    payload.Covers objects' rows := by
  intro row hrow
  obtain ⟨o, ho, hrest⟩ := h row hrow
  exact ⟨o, hsub o ho, hrest⟩

/-- Holding survives what leaves the payload alone. -/
theorem Holds.keep {flush : Flush ρ V} {payload : Payload} {s s' : St ρ}
    (h : Holds cfg flush payload s) (hheld : s'.sink.held = s.sink.held)
    (hgrows : s.world.Grows s'.world) : Holds cfg flush payload s' :=
  ⟨hheld.trans h.held, h.key, h.covers.grow hgrows.objects⟩

theorem Holds.prepared {flush : Flush ρ V} {payload : Payload} {s : St ρ}
    (h : Holds cfg flush payload s) : s.sink.prepared = some payload := congrArg Prod.fst h.held

variable (cfg) in
/-- Whatever is held is held for one of these flushes. -/
structure Sound (flushes : Flush ρ V → Prop) (s : St ρ) : Prop where
  noVerdict : NoVerdict s
  backed : ∀ payload, s.sink.prepared = some payload → ∃ flush, flushes flush ∧ Holds cfg flush payload s

variable {flushes : Flush ρ V → Prop}

theorem NoVerdict.steps {s s' : St ρ} (h : NoVerdict s) (hs : Steps cfg s s') : NoVerdict s' :=
  hs.invariant (fun _ _ hstep => hstep.noVerdict) h

theorem Sound.keep {s s' : St ρ} (h : Sound cfg flushes s) (hk : Keeps cfg s s') :
    Sound cfg flushes s' := by
  refine ⟨h.noVerdict.steps hk.steps, fun payload hpayload => ?_⟩
  rcases hk.held with hnone | hheld
  · exact absurd (hnone.symm.trans hpayload) (by simp)
  · have hpayload' : s.sink.prepared = some payload := (congrArg Prod.fst hheld).symm.trans hpayload
    obtain ⟨flush, hflush, hholds⟩ := h.backed payload hpayload'
    exact ⟨flush, hflush, hholds.keep hheld hk.steps.grows⟩

theorem Sound.mono {flushes' : Flush ρ V → Prop} {s : St ρ} (h : Sound cfg flushes s)
    (hmore : ∀ flush, flushes flush → flushes' flush) : Sound cfg flushes' s := by
  refine ⟨h.noVerdict, fun payload hpayload => ?_⟩
  obtain ⟨flush, hflush, hholds⟩ := h.backed payload hpayload
  exact ⟨flush, hmore flush hflush, hholds⟩

theorem Sound.of_holds {s : St ρ} {flush : Flush ρ V} {payload : Payload} (hverdict : NoVerdict s)
    (hflush : flushes flush) (h : Holds cfg flush payload s) : Sound cfg flushes s := by
  refine ⟨hverdict, fun payload' hpayload' => ?_⟩
  obtain rfl : payload = payload' := by simpa [h.prepared] using hpayload'
  exact ⟨flush, hflush, h⟩

variable (cfg flushes) in
/-- Steps that leave the state sound. -/
structure Keeping (s s' : St ρ) : Prop where
  steps : Steps cfg s s'
  sound : Sound cfg flushes s'

variable (cfg flushes) in
/-- How a `write` returns: it had nothing to write, or a payload held for this flush, or for an
    earlier one of the same identity, was answered. -/
inductive WriteReturns (s : St ρ) (flush : Flush ρ V) : ℕ → St ρ → Prop where
  | skipped (skip : isSkipped flush.batch = true) : WriteReturns s flush 0 s
  | answered {count : ℕ} {s' : St ρ} (s₁ : St ρ) (flush' : Flush ρ V) (payload : Payload)
      (steps : Steps cfg s s₁) (known : flushes flush')
      (same : flush' = flush ∨ flush.identity.isSome = true ∧ flush'.identity = flush.identity)
      (holds : Holds cfg flush' payload s₁) (returned : Returned cfg s₁ payload count s')
      (sent : .sent payload :: s₁.log <:+ s'.log) :
      WriteReturns s flush count s'

theorem WriteReturns.keeping {s s' : St ρ} {flush : Flush ρ V} {count : ℕ}
    (h : WriteReturns cfg flushes s flush count s') (hs : Sound cfg flushes s) :
    Keeping cfg flushes s s' := by
  cases h with
  | skipped => exact ⟨.refl, hs⟩
  | answered s₁ flush' payload steps known same holds returned sent =>
      have hsteps := steps.trans returned.steps
      refine ⟨hsteps, hs.noVerdict.steps hsteps, fun payload' hpayload' => ?_⟩
      exact absurd (returned.prepared.symm.trans hpayload') (by simp)

theorem write_spec (be : Backend ρ V) (flush : Flush ρ V) {s : St ρ} (hflush : flushes flush)
    (hs : Sound cfg flushes s) :
    wp (write cfg be flush) (WriteReturns cfg flushes s flush) (Fails (Keeping cfg flushes) s) s := by
  have hrefl : Keeping cfg flushes s s := ⟨.refl, hs⟩
  unfold write
  rw [wp_ite]
  refine ⟨fun _ => .of hrefl (.refl _), fun _ => ?_⟩
  rw [wp_ite]
  refine ⟨fun hskip => .skipped hskip, fun hskip => ?_⟩
  simp only [wp_bind, wp_get]
  rw [wp_ite]
  constructor
  · intro hreplay
    -- a retry: the payload held for this identity goes out as it is
    unfold isReplay at hreplay
    simp only [Bool.and_eq_true, decide_eq_true_eq] at hreplay
    obtain ⟨⟨hidentity, hsome⟩, hoffsets⟩ := hreplay
    obtain ⟨payload, held⟩ := Option.isSome_iff_exists.1 hsome
    obtain ⟨flush', hflush', hholds⟩ := hs.backed payload held
    have hsame : flush'.identity = flush.identity := by
      have h : s.sink.preparedOffsets = flush'.identity := congrArg (fun held => held.2.2) hholds.held
      exact h.symm.trans hoffsets
    refine wp_mono (commitPrepared_spec cfg held) ?_ ?_
    · exact fun count s' h => .answered s flush' payload .refl hflush' (Or.inr ⟨hidentity, hsame⟩)
        hholds h.1 h.2
    · exact fun r s' h => h.mono fun hk => ⟨hk.steps, hs.keep hk⟩
  · intro _
    simp only [wp_bind]
    refine wp_mono (discardPrepared_spec cfg fun _ _ => .superseded) ?_ (fun _ _ h => h.elim)
    intro _ s₁ hun
    have hrows : flush.batch.rows ≠ [] := by
      intro hnil
      exact hskip (by simp [isSkipped, hnil])
    have hverdict := hs.noVerdict.steps hun.steps
    refine wp_mono (buildPayload_spec flush hverdict hun.prepared hrows) ?_ ?_
    · rintro _ s₂ ⟨hsteps, payload, hholds⟩
      have hsteps₂ : Steps cfg s s₂ := hun.steps.trans hsteps
      have hsound := Sound.of_holds (hs.noVerdict.steps hsteps₂) hflush hholds
      refine wp_mono (commitPrepared_spec cfg hholds.prepared) ?_ ?_
      · exact fun count s' h => .answered s₂ flush payload hsteps₂ hflush (Or.inl rfl) hholds h.1 h.2
      · exact fun r s' h => h.after hsteps₂.grows fun hk =>
          ⟨hsteps₂.trans hk.steps, hsound.keep hk⟩
    · intro r s₂ h
      refine h.after hun.steps.grows fun hun₂ => ⟨hun.steps.trans hun₂.steps, ?_⟩
      exact hs.keep ((hun₂.after hun.steps).keeps)

/-! ## Runs -/

theorem perform_keeping {s s' : St ρ} {call : Call ρ V} (hcall : ∀ flush, call = .write flush → flushes flush)
    (hs : Sound cfg flushes s) (h : perform cfg be s call = some s') : Keeping cfg flushes s s' := by
  cases call with
  | write flush =>
      have hwrite := write_spec be flush (hcall flush rfl) hs
      unfold perform at h
      cases hw : write cfg be flush s with
      | ok count s₁ =>
          simp only [hw, Option.some.injEq] at h
          exact h ▸ ((wp_of_ok hw).1 hwrite).keeping hs
      | error r s₁ =>
          have hwrite := (wp_of_error hw).1 hwrite
          simp only [hw] at h
          by_cases hkilled : r.error = .killed
          · simp [hkilled] at h
          · simp only [hkilled, if_false, Option.some.injEq] at h
            unfold Fails at hwrite
            rw [if_neg hkilled] at hwrite
            exact h ▸ hwrite
  | resetCaches =>
      have hfinal : final resetCaches s = s' := by simpa [perform] using h
      obtain rfl : s.reset = s' := hfinal
      have hk : Keeps cfg s s.reset := ⟨.single .reset, Or.inr rfl⟩
      exact ⟨hk.steps, hs.keep hk⟩
  | close =>
      obtain rfl : final close s = s' := by simpa [perform] using h
      have hun : Unheld cfg s (final close s) := by
        unfold close
        refine final_of_wp (wp_mono (discardPrepared_spec cfg fun _ _ => .shutdown) ?_ ?_)
        · exact fun _ _ h => h
        · exact fun _ _ h => h.elim
      exact ⟨hun.steps, hs.keep hun.keeps⟩
  | others moves =>
      obtain rfl : _ = s' := by simpa [perform] using h
      have hworld : s.world.Evolves { s.world with net := s.world.net.moves moves } :=
        ⟨Net.evolves_moves moves _, rfl, rfl, rfl, rfl⟩
      have hk : Keeps cfg s (s.moved _ s.sink.retryAfter) := (Standing.moved s hworld _).keeps
      exact ⟨hk.steps, hs.keep hk⟩

/-- **A run is a sequence of steps.** -/
theorem run_keeping {calls : List (Call ρ V)} {s s' : St ρ}
    (hcalls : ∀ flush, .write flush ∈ calls → flushes flush) (hs : Sound cfg flushes s)
    (h : run cfg be s calls = some s') : Keeping cfg flushes s s' := by
  induction calls generalizing s with
  | nil =>
      obtain rfl : s = s' := by simpa [run] using h
      exact ⟨.refl, hs⟩
  | cons call rest ih =>
      unfold run at h
      rw [List.foldlM_cons] at h
      obtain ⟨s₁, hcall, hrest⟩ := Option.bind_eq_some_iff.1 h
      have h₁ := perform_keeping (fun flush heq => hcalls flush (by simp [heq])) hs hcall
      have h₂ := ih (fun flush hmem => hcalls flush (List.mem_cons_of_mem _ hmem)) h₁.sound hrest
      exact ⟨h₁.steps.trans h₂.steps, h₂.sound⟩

theorem sound_new (world : World ρ) : Sound cfg flushes (St.new world) :=
  ⟨fun _ => rfl, fun _ h => absurd h (by simp [St.new, Sink.new])⟩

theorem run_steps {world : World ρ} {calls : List (Call ρ V)} {s : St ρ}
    (h : run cfg be (St.new world) calls = some s) : Steps cfg (St.new world) s := by
  have hsound : Sound cfg (fun _ : Flush ρ V => True) (St.new world) := sound_new world
  exact (run_keeping (fun _ _ => trivial) hsound h).steps

/-- What holds of a new sink and is kept by every step holds after every run. -/
theorem run_invariant {I : St ρ → Prop} (hstep : ∀ s s', Step cfg s s' → I s → I s')
    {world : World ρ} {calls : List (Call ρ V)} {s : St ρ} (hnew : I (St.new world))
    (h : run cfg be (St.new world) calls = some s) : I s :=
  (run_steps h).invariant hstep hnew

end Millpond.Hoglake
