import FeedHandler.Bridge.Injection
import FeedHandler.Bridge.RateLimiter
import FeedHandler.Foundation.Runs
import Mathlib.Logic.Function.Basic

/-!
# The sessions of the bridge (`ws_handler` of `bridge.py`)

Each connection has a handler, and all connections of one address share a limiter, which is kept when they close.
Messages are handled one at a time, from any connections in any order.  The numbers of the limiter and of the clock are
taken to be exact.

The limiter bounds what an address gets through in any stretch of time, whatever connections it opens and closes
(`client_rate_bound`), and the answers to an address and what is accepted from it are those it would get alone
(`client_isolation`).

The process of the engine may end at any time, for instance because a client has sent `EXIT`; then writes fail until
the process is spawned anew.  A command reaches at most one process, and whole, and no process reads behind an `EXIT`
or `QUIT` (`engine_lines`).
-/

namespace FeedHandler

open Python StreamServer

namespace Bridge

/-- The fields `code` and `msg` of an answer; its type is `"error"`. -/
structure Reply where
  code : Nat
  msg : Str
deriving DecidableEq, Repr

def tooManyRequests : Reply := ⟨429, "Rate limit exceeded. Slow down command ingestion.".toList⟩

def commandRejected (err : Str) : Reply := ⟨400, "Command rejected: ".toList ++ err⟩

/-- What one message leads to. -/
structure Handled where
  limiter : TokenBucketRateLimiter
  admitted : Bool
  reply : Option Reply := none
  /-- `cmd_str`, unless it is empty -/
  text : Option Str := none

/-- The body of `async for message in websocket`.  The payload is the object that `json.loads` returns, or `none` when
it raises an exception or returns something else, which is logged. -/
def handle (py : Runtime) (limiter : TokenBucketRateLimiter) (now : ℚ) (payload : Option Command) : Handled :=
  let (admitted, limiter) := limiter.allow now 1
  if !admitted then
    { limiter, admitted, reply := some tooManyRequests }
  else
    match payload.map (sanitizeAndRouteCommand py) with
    | none => { limiter, admitted }
    | some (.error _) => { limiter, admitted } -- the exception is logged
    | some (.ok (valid, cmdStr, err)) =>
      if !valid then { limiter, admitted, reply := some (commandRejected err) }
      else { limiter, admitted, text := if cmdStr = [] then none else some cmdStr }

inductive BridgeEvent (Socket : Type) where
  | connect (websocket : Socket) (now : ℚ)
  | message (websocket : Socket) (now : ℚ) (payload : Option Command)
  | disconnect (websocket : Socket)
  /-- the process of the engine ends -/
  | exit
  /-- `read_cpp_stdout_loop` finds that it has ended -/
  | respawn

variable {Socket Address : Type}

namespace BridgeEvent

/-- The connection, if it is an event of one. -/
def websocket : BridgeEvent Socket → Option Socket
  | connect websocket _ => some websocket
  | message websocket _ _ => some websocket
  | disconnect websocket => some websocket
  | exit => none
  | respawn => none

/-- The value of `time.monotonic()`. -/
def time : BridgeEvent Socket → Option ℚ
  | connect _ now => some now
  | message _ now _ => some now
  | _ => none

end BridgeEvent

/-- `client_limiters`, the handlers that run, what they have done, and the processes of the engine. -/
structure Sessions (Socket Address : Type) where
  clientLimiters : Address → Option TokenBucketRateLimiter
  connected : Socket → Bool
  replies : List (Socket × Reply)
  /-- the messages that the limiters let through, with their times -/
  admitted : List (Socket × ℚ)
  /-- the texts for the engine -/
  routed : List (Socket × Str)
  /-- what was written to the standard input of `cpp_process` -/
  written : List (Socket × Str)
  /-- `cpp_process.poll()` is `None` -/
  running : Bool
  /-- what was written to the processes before it -/
  earlier : List (List (Socket × Str))

end Bridge

/-! ### The limiter and a stretch of time -/

namespace TokenBucketRateLimiter

variable {b : TokenBucketRateLimiter} {t₁ t₂ now : ℚ} {count : ℕ}

/-- The limiter has let `count` calls through between `t₁` and `t₂`. -/
structure Metered (t₁ t₂ : ℚ) (count : ℕ) (b : TokenBucketRateLimiter) : Prop where
  within : b.Within
  bound : (count : ℚ) ≤ b.capacity + b.rate * (t₂ - t₁)
  before : b.lastUpdate < t₁ → count = 0
  inside : t₁ ≤ b.lastUpdate → b.lastUpdate ≤ t₂ → (count : ℚ) + b.tokens ≤ b.capacity + b.rate * (b.lastUpdate - t₁)

theorem metered_init {rate capacity : ℚ} (hrate : 0 ≤ rate) (hcapacity : 0 ≤ capacity) (hle : t₁ ≤ t₂) :
    Metered t₁ t₂ 0 (init rate capacity now) where
  within := ⟨hrate, hcapacity, le_refl capacity⟩
  bound := by
    have hin : 0 ≤ rate * (t₂ - t₁) := mul_nonneg hrate (sub_nonneg.2 hle)
    show ((0 : ℕ) : ℚ) ≤ capacity + rate * (t₂ - t₁)
    rw [Nat.cast_zero]
    linarith
  before _ := rfl
  inside hge _ := by
    have hin : 0 ≤ rate * (now - t₁) := mul_nonneg hrate (sub_nonneg.2 hge)
    show ((0 : ℕ) : ℚ) + capacity ≤ capacity + rate * (now - t₁)
    rw [Nat.cast_zero]
    linarith

/-- The calls let through in the stretch, with one more call. -/
def countCall (t₁ t₂ : ℚ) (admitted : Bool) (now : ℚ) : ℕ := if admitted ∧ t₁ ≤ now ∧ now ≤ t₂ then 1 else 0

/-- While the stretch lasts, the calls let through and the tokens left come to a full bucket and the inflow. -/
theorem Metered.allow (h : Metered t₁ t₂ count b) (hnow : b.lastUpdate ≤ now) :
    Metered t₁ t₂ (count + countCall t₁ t₂ (b.allow now 1).1 now) (b.allow now 1).2 := by
  have hwithin := h.within.allow hnow
  have htokens := allow_tokens b now
  have hfull := (h.within.refill hnow).le
  have hcapacity : (b.refill now).capacity = b.capacity := rfl
  have hfill : (b.refill now).tokens ≤ b.tokens + (now - b.lastUpdate) * b.rate := min_le_right _ _
  have hcall : (countCall t₁ t₂ (b.allow now 1).1 now : ℚ) ≤ (b.allow now 1).1.toNat := by
    unfold countCall
    split
    · rename_i hyes
      simp [hyes.1]
    · positivity
  -- the calls so far and the tokens after this one
  have hinside : t₁ ≤ now → now ≤ t₂ → (count : ℚ) + (b.refill now).tokens ≤ b.capacity + b.rate * (now - t₁) := by
    intro hge hle
    rcases lt_or_ge b.lastUpdate t₁ with hlt | hge'
    · have hzero := h.before hlt
      have hin : 0 ≤ b.rate * (now - t₁) := mul_nonneg h.within.rate (sub_nonneg.2 hge)
      rw [hzero, Nat.cast_zero]
      linarith
    · have hbefore := h.inside hge' (hnow.trans hle)
      linarith
  refine ⟨hwithin, ?_, fun hlt => ?_, fun hge hle => ?_⟩
  · rw [allow_capacity, allow_rate, Nat.cast_add]
    by_cases hin : t₁ ≤ now ∧ now ≤ t₂
    · have hnext := hinside hin.1 hin.2
      have hleft := hwithin.nonneg
      have hmore : b.rate * (now - t₁) ≤ b.rate * (t₂ - t₁) :=
        mul_le_mul_of_nonneg_left (by linarith [hin.2]) h.within.rate
      linarith
    · have hnone : countCall t₁ t₂ (b.allow now 1).1 now = 0 := if_neg fun hyes => hin hyes.2
      have hbound := h.bound
      rw [hnone, Nat.cast_zero]
      linarith
  · rw [allow_lastUpdate] at hlt
    have hnone : countCall t₁ t₂ (b.allow now 1).1 now = 0 := if_neg fun hyes => absurd hyes.2.1 (not_le.2 hlt)
    rw [hnone, h.before (lt_of_le_of_lt hnow hlt)]
  · rw [allow_lastUpdate] at hge hle ⊢
    have hnext := hinside hge hle
    rw [allow_capacity, allow_rate, Nat.cast_add]
    linarith

end TokenBucketRateLimiter

namespace Bridge

open TokenBucketRateLimiter

variable {Socket Address : Type}

namespace Sessions

variable [DecidableEq Socket] [DecidableEq Address]

def start : Sessions Socket Address where
  clientLimiters _ := none
  connected _ := false
  replies := []
  admitted := []
  routed := []
  written := []
  running := true
  earlier := []

/-- A message was handled. -/
def record (s : Sessions Socket Address) (websocket : Socket) (clientIp : Address) (now : ℚ) (h : Handled) :
    Sessions Socket Address where
  clientLimiters := Function.update s.clientLimiters clientIp (some h.limiter)
  connected := s.connected
  replies := s.replies ++ h.reply.toList.map (websocket, ·)
  admitted := s.admitted ++ if h.admitted then [(websocket, now)] else []
  routed := s.routed ++ h.text.toList.map (websocket, ·)
  -- a write to a process that has ended raises an exception, which is logged
  written := if s.running then s.written ++ h.text.toList.map (websocket, ·) else s.written
  running := s.running
  earlier := s.earlier

/-- `ws_handler`, with `RATE_LIMIT_HZ` and `RATE_LIMIT_BURST`, and the respawn of `read_cpp_stdout_loop`. -/
def step (py : Runtime) (remoteAddress : Socket → Address) (rateLimitHz rateLimitBurst : ℚ)
    (s : Sessions Socket Address) : BridgeEvent Socket → Sessions Socket Address
  | .connect websocket now =>
    let clientIp := remoteAddress websocket
    { s with
      -- `client_limiters.setdefault(client_ip, TokenBucketRateLimiter())`
      clientLimiters := Function.update s.clientLimiters clientIp
        (some ((s.clientLimiters clientIp).getD (.init rateLimitHz rateLimitBurst now)))
      connected := Function.update s.connected websocket true }
  | .message websocket now payload =>
    if s.connected websocket then
      match s.clientLimiters (remoteAddress websocket) with
      | none => s
      | some limiter => s.record websocket (remoteAddress websocket) now (handle py limiter now payload)
    else
      s
  | .disconnect websocket => { s with connected := Function.update s.connected websocket false }
  | .exit => { s with running := false }
  | .respawn =>
    if s.running then s else { s with written := [], running := true, earlier := s.earlier ++ [s.written] }

/-- What was written to each process of the engine, one after the other. -/
def inputs (s : Sessions Socket Address) : List (List (Socket × Str)) := s.earlier ++ [s.written]

def run (py : Runtime) (remoteAddress : Socket → Address) (rateLimitHz rateLimitBurst : ℚ)
    (events : List (BridgeEvent Socket)) : Sessions Socket Address :=
  events.foldl (step py remoteAddress rateLimitHz rateLimitBurst) start

variable {py : Runtime} {remoteAddress : Socket → Address} {rateLimitHz rateLimitBurst : ℚ}
  {s t : Sessions Socket Address} {clientIp : Address}

/-! ### Each address for itself -/

/-- The two states are the same for the connections of an address. -/
structure SameFor (remoteAddress : Socket → Address) (clientIp : Address) (s t : Sessions Socket Address) : Prop where
  limiter : s.clientLimiters clientIp = t.clientLimiters clientIp
  connected : ∀ websocket, remoteAddress websocket = clientIp → s.connected websocket = t.connected websocket
  replies : s.replies.filter (fun r => remoteAddress r.1 = clientIp) =
    t.replies.filter fun r => remoteAddress r.1 = clientIp
  admitted : s.admitted.filter (fun r => remoteAddress r.1 = clientIp) =
    t.admitted.filter fun r => remoteAddress r.1 = clientIp
  routed : s.routed.filter (fun r => remoteAddress r.1 = clientIp) =
    t.routed.filter fun r => remoteAddress r.1 = clientIp

/-- An event of another address, or of the engine, changes nothing. -/
theorem SameFor.other (h : SameFor remoteAddress clientIp s t) {e : BridgeEvent Socket}
    (he : e.websocket.map remoteAddress ≠ some clientIp) :
    SameFor remoteAddress clientIp (s.step py remoteAddress rateLimitHz rateLimitBurst e) t := by
  have hother : ∀ {α : Type} (websocket : Socket) (l : List α), remoteAddress websocket ≠ clientIp →
      (l.map (websocket, ·)).filter (fun r => remoteAddress r.1 = clientIp) = [] := by
    intro α websocket l hne
    simp [List.filter_eq_nil_iff, hne]
  cases e with
  | connect websocket now =>
    have hip : remoteAddress websocket ≠ clientIp := fun hip => he (congrArg some hip)
    refine ⟨?_, fun ws hws => ?_, h.replies, h.admitted, h.routed⟩
    · rw [← h.limiter]
      exact Function.update_of_ne (Ne.symm hip) ..
    · have hne : ws ≠ websocket := by
        rintro rfl
        exact hip hws
      rw [← h.connected ws hws]
      exact Function.update_of_ne hne ..
  | message websocket now payload =>
    have hip : remoteAddress websocket ≠ clientIp := fun hip => he (congrArg some hip)
    unfold step
    dsimp only
    split
    · split
      · exact h
      · rename_i limiter _
        refine ⟨?_, h.connected, ?_, ?_, ?_⟩
        · rw [← h.limiter]
          exact Function.update_of_ne (Ne.symm hip) ..
        · rw [record, List.filter_append, hother websocket _ hip, List.append_nil, h.replies]
        · have hnone : (if (handle py limiter now payload).admitted then [(websocket, now)] else []).filter
              (fun r => remoteAddress r.1 = clientIp) = [] := by
            split <;> simp [hip]
          rw [record, List.filter_append, hnone, List.append_nil, h.admitted]
        · rw [record, List.filter_append, hother websocket _ hip, List.append_nil, h.routed]
    · exact h
  | disconnect websocket =>
    refine ⟨h.limiter, fun ws hws => ?_, h.replies, h.admitted, h.routed⟩
    have hne : ws ≠ websocket := by
      rintro rfl
      exact he (congrArg some hws)
    rw [← h.connected ws hws]
    exact Function.update_of_ne hne ..
  | exit => exact ⟨h.limiter, h.connected, h.replies, h.admitted, h.routed⟩
  | respawn =>
    unfold step
    dsimp only
    split
    · exact h
    · exact ⟨h.limiter, h.connected, h.replies, h.admitted, h.routed⟩

/-- An event of the address does the same in both states. -/
theorem SameFor.own (h : SameFor remoteAddress clientIp s t) {e : BridgeEvent Socket}
    (he : e.websocket.map remoteAddress = some clientIp) :
    SameFor remoteAddress clientIp (s.step py remoteAddress rateLimitHz rateLimitBurst e)
      (t.step py remoteAddress rateLimitHz rateLimitBurst e) := by
  have hflag : ∀ websocket flag ws, remoteAddress ws = clientIp →
      Function.update s.connected websocket flag ws = Function.update t.connected websocket flag ws := by
    intro websocket flag ws hws
    by_cases heq : ws = websocket
    · rw [heq, Function.update_self, Function.update_self]
    · rw [Function.update_of_ne heq, Function.update_of_ne heq, h.connected ws hws]
  cases e with
  | connect websocket now =>
    obtain rfl : remoteAddress websocket = clientIp := Option.some.inj he
    refine ⟨?_, hflag websocket true, h.replies, h.admitted, h.routed⟩
    simp only [step, Function.update_self, h.limiter]
  | message websocket now payload =>
    obtain rfl : remoteAddress websocket = clientIp := Option.some.inj he
    unfold step
    dsimp only
    rw [h.connected websocket rfl, h.limiter]
    split
    · split
      · exact h
      · refine ⟨?_, h.connected, ?_, ?_, ?_⟩
        · simp only [record, Function.update_self]
        · simp only [record, List.filter_append, h.replies]
        · simp only [record, List.filter_append, h.admitted]
        · simp only [record, List.filter_append, h.routed]
    · exact h
  | disconnect websocket => exact ⟨h.limiter, hflag websocket false, h.replies, h.admitted, h.routed⟩
  | exit => cases he
  | respawn => cases he

/-- What an address sees, and what is accepted from it, is what it would be without all other clients, whenever the
process of the engine ends and is spawned anew. -/
theorem client_isolation (py : Runtime) (remoteAddress : Socket → Address) (rateLimitHz rateLimitBurst : ℚ)
    (events : List (BridgeEvent Socket)) (clientIp : Address) :
    SameFor remoteAddress clientIp (run py remoteAddress rateLimitHz rateLimitBurst events)
      (run py remoteAddress rateLimitHz rateLimitBurst
        (events.filter fun e => e.websocket.map remoteAddress = some clientIp)) := by
  induction events using List.reverseRecOn with
  | nil => exact ⟨rfl, fun _ _ => rfl, rfl, rfl, rfl⟩
  | append_singleton events e ih =>
    unfold run at ih ⊢
    rw [List.filter_append, List.foldl_append, List.foldl_append]
    by_cases he : e.websocket.map remoteAddress = some clientIp
    · rw [List.filter_cons_of_pos (by simpa using he)]
      exact ih.own he
    · rw [List.filter_cons_of_neg (by simpa using he)]
      exact ih.other he

/-! ### What an address gets through -/

/-- The messages of an address that were let through between `t₁` and `t₂`. -/
def admittedBetween (remoteAddress : Socket → Address) (clientIp : Address) (t₁ t₂ : ℚ) (s : Sessions Socket Address) :
    ℕ :=
  s.admitted.countP fun a => remoteAddress a.1 = clientIp ∧ t₁ ≤ a.2 ∧ a.2 ≤ t₂

/-- The limiter of an address, once it has one, has let through what was counted, and its clock stands at an event. -/
structure Limited (remoteAddress : Socket → Address) (rateLimitHz rateLimitBurst t₁ t₂ : ℚ)
    (events : List (BridgeEvent Socket)) (clientIp : Address) (s : Sessions Socket Address) : Prop where
  unknown : s.clientLimiters clientIp = none → s.admittedBetween remoteAddress clientIp t₁ t₂ = 0
  known : ∀ b, s.clientLimiters clientIp = some b →
    Metered t₁ t₂ (s.admittedBetween remoteAddress clientIp t₁ t₂) b ∧ b.rate = rateLimitHz ∧
      b.capacity = rateLimitBurst ∧ b.lastUpdate ∈ events.filterMap BridgeEvent.time

variable {t₁ t₂ : ℚ} {events : List (BridgeEvent Socket)}

theorem handle_limiter (py : Runtime) (limiter : TokenBucketRateLimiter) (now : ℚ) (payload : Option Command) :
    (handle py limiter now payload).limiter = (limiter.allow now 1).2 ∧
      (handle py limiter now payload).admitted = (limiter.allow now 1).1 := by
  unfold handle
  dsimp only
  split
  · exact ⟨rfl, rfl⟩
  · split
    · exact ⟨rfl, rfl⟩
    · exact ⟨rfl, rfl⟩
    · split <;> exact ⟨rfl, rfl⟩

omit [DecidableEq Socket] in
theorem admittedBetween_record (s : Sessions Socket Address) (websocket : Socket) (now : ℚ) (h : Handled) :
    (s.record websocket (remoteAddress websocket) now h).admittedBetween remoteAddress clientIp t₁ t₂ =
      s.admittedBetween remoteAddress clientIp t₁ t₂ +
        if remoteAddress websocket = clientIp then countCall t₁ t₂ h.admitted now else 0 := by
  unfold admittedBetween record countCall
  rw [List.countP_append]
  congr 1
  cases h.admitted with
  | false => simp
  | true =>
    by_cases hip : remoteAddress websocket = clientIp
    · simp [hip, List.countP_cons]
    · simp [hip]

theorem Limited.step (h : Limited remoteAddress rateLimitHz rateLimitBurst t₁ t₂ events clientIp s)
    (hrate : 0 ≤ rateLimitHz) (hburst : 0 ≤ rateLimitBurst) (hle : t₁ ≤ t₂) (e : BridgeEvent Socket)
    (hclock : ∀ now, e.time = some now → ∀ t ∈ events.filterMap BridgeEvent.time, t ≤ now) :
    Limited remoteAddress rateLimitHz rateLimitBurst t₁ t₂ (events ++ [e]) clientIp
      (s.step py remoteAddress rateLimitHz rateLimitBurst e) := by
  have hmem : ∀ t, t ∈ events.filterMap BridgeEvent.time ∨ e.time = some t →
      t ∈ (events ++ [e]).filterMap BridgeEvent.time := by
    intro t ht
    rw [List.filterMap_append, List.mem_append]
    refine ht.imp_right fun htime => ?_
    rw [List.filterMap_cons_some htime]
    exact List.mem_cons_self
  have hsame : ∀ t : Sessions Socket Address, t.clientLimiters clientIp = s.clientLimiters clientIp →
      t.admittedBetween remoteAddress clientIp t₁ t₂ = s.admittedBetween remoteAddress clientIp t₁ t₂ →
        Limited remoteAddress rateLimitHz rateLimitBurst t₁ t₂ (events ++ [e]) clientIp t := by
    intro t hlimiter hcount
    refine ⟨fun hnone => ?_, fun b hb => ?_⟩
    · rw [hcount]
      exact h.unknown (hlimiter ▸ hnone)
    · obtain ⟨hmetered, hb₁, hb₂, htime⟩ := h.known b (hlimiter ▸ hb)
      rw [hcount]
      exact ⟨hmetered, hb₁, hb₂, hmem _ (Or.inl htime)⟩
  cases e with
  | connect websocket now =>
    by_cases hip : clientIp = remoteAddress websocket
    · subst hip
      cases hold : s.clientLimiters (remoteAddress websocket) with
      | some b =>
        refine hsame _ ?_ rfl
        simp only [Sessions.step, Function.update_self, hold, Option.getD_some]
      | none =>
        -- the first connection of the address
        have hnew : (s.step py remoteAddress rateLimitHz rateLimitBurst (.connect websocket now)).clientLimiters
            (remoteAddress websocket) = some (.init rateLimitHz rateLimitBurst now) := by
          simp only [Sessions.step, Function.update_self, hold, Option.getD_none]
        have hzero : (s.step py remoteAddress rateLimitHz rateLimitBurst (.connect websocket now)).admittedBetween
            remoteAddress (remoteAddress websocket) t₁ t₂ = 0 := h.unknown hold
        refine ⟨fun _ => hzero, fun b hb => ?_⟩
        obtain rfl := Option.some.inj (hnew.symm.trans hb)
        rw [hzero]
        exact ⟨metered_init hrate hburst hle, rfl, rfl, hmem _ (Or.inr rfl)⟩
    · exact hsame _ (Function.update_of_ne hip ..) rfl
  | message websocket now payload =>
    unfold Sessions.step
    dsimp only
    split
    · cases hlimiter : s.clientLimiters (remoteAddress websocket) with
      | none => exact hsame s rfl rfl
      | some limiter =>
        obtain ⟨hnext, hadmitted⟩ := handle_limiter py limiter now payload
        by_cases hip : clientIp = remoteAddress websocket
        · subst hip
          obtain ⟨hmetered, hb₁, hb₂, htime⟩ := h.known limiter hlimiter
          have hallow := hmetered.allow (hclock now rfl _ htime)
          refine ⟨fun hnone => ?_, fun b hb => ?_⟩
          · simp only [record, Function.update_self] at hnone
            cases hnone
          · simp only [record, Function.update_self, Option.some.injEq] at hb
            rw [hnext] at hb
            subst hb
            rw [admittedBetween_record, if_pos rfl, hadmitted, allow_rate, allow_capacity, allow_lastUpdate]
            exact ⟨hallow, hb₁, hb₂, hmem _ (Or.inr rfl)⟩
        · refine hsame _ (Function.update_of_ne hip ..) ?_
          rw [admittedBetween_record, if_neg (Ne.symm hip), Nat.add_zero]
    · exact hsame s rfl rfl
  | disconnect websocket => exact hsame _ rfl rfl
  | exit => exact hsame _ rfl rfl
  | respawn =>
    unfold Sessions.step
    dsimp only
    split <;> exact hsame _ rfl rfl

theorem limited_run (hrate : 0 ≤ rateLimitHz) (hburst : 0 ≤ rateLimitBurst) (hle : t₁ ≤ t₂)
    (hclock : (events.filterMap BridgeEvent.time).Pairwise (· ≤ ·)) :
    Limited remoteAddress rateLimitHz rateLimitBurst t₁ t₂ events clientIp
      (run py remoteAddress rateLimitHz rateLimitBurst events) := by
  induction events using List.reverseRecOn with
  | nil => exact ⟨fun _ => rfl, fun b hb => nomatch hb⟩
  | append_singleton events e ih =>
    rw [List.filterMap_append, List.pairwise_append] at hclock
    obtain ⟨hbefore, -, hlast⟩ := hclock
    have hrun : run py remoteAddress rateLimitHz rateLimitBurst (events ++ [e]) =
        (run py remoteAddress rateLimitHz rateLimitBurst events).step py remoteAddress rateLimitHz rateLimitBurst e :=
      List.foldl_append
    rw [hrun]
    refine (ih hbefore).step hrate hburst hle e fun now htime t ht => hlast t ht now ?_
    rw [List.filterMap_cons_some htime]
    exact List.mem_cons_self

/-- Between any two times an address gets at most a full bucket and the inflow through, over all its connections, those
opened and closed meanwhile included. -/
theorem client_rate_bound (py : Runtime) (remoteAddress : Socket → Address) (rateLimitHz rateLimitBurst : ℚ)
    (hrate : 0 ≤ rateLimitHz) (hburst : 0 ≤ rateLimitBurst) (events : List (BridgeEvent Socket))
    (hclock : (events.filterMap BridgeEvent.time).Pairwise (· ≤ ·)) (clientIp : Address) (t₁ t₂ : ℚ) (hle : t₁ ≤ t₂) :
    ((run py remoteAddress rateLimitHz rateLimitBurst events).admittedBetween remoteAddress clientIp t₁ t₂ : ℚ) ≤
      rateLimitBurst + rateLimitHz * (t₂ - t₁) := by
  have h : Limited remoteAddress rateLimitHz rateLimitBurst t₁ t₂ events clientIp
      (run py remoteAddress rateLimitHz rateLimitBurst events) := limited_run hrate hburst hle hclock
  cases hlimiter : (run py remoteAddress rateLimitHz rateLimitBurst events).clientLimiters clientIp with
  | none =>
    have hin : 0 ≤ rateLimitHz * (t₂ - t₁) := mul_nonneg hrate (sub_nonneg.2 hle)
    rw [h.unknown hlimiter, Nat.cast_zero]
    linarith
  | some b =>
    obtain ⟨hmetered, hb₁, hb₂, -⟩ := h.known b hlimiter
    have hbound := hmetered.bound
    rwa [hb₁, hb₂] at hbound

/-- A bucket of two tokens that gets one every two seconds: the third message is refused, and after two seconds one
of another connection is let through. -/
theorem client_rate_bound_reconnected :
    ((run ascii (fun _ : Bool => ()) (1 / 2) 2 [.connect true 0, .message true 0 none, .message true 0 none,
      .message true 0 none, .disconnect true, .connect false 1, .message false 2 none]).admittedBetween
        (fun _ => ()) () 0 2 : ℚ) ≤ 2 + 1 / 2 * (2 - 0) ∧
    (run ascii (fun _ : Bool => ()) (1 / 2) 2 [.connect true 0, .message true 0 none, .message true 0 none,
      .message true 0 none, .disconnect true, .connect false 1, .message false 2 none]).admittedBetween
        (fun _ => ()) () 0 2 = 3 :=
  ⟨client_rate_bound ascii (fun _ : Bool => ()) (1 / 2) 2 (by decide +kernel) (by decide) _ (by decide) () 0 2
    (by decide), by decide +kernel⟩

/-! ### What the engine reads -/

/-- An accepted command is a number of whole lines. -/
theorem whole_lines {data : Command} {out err : Str} (h : sanitizeAndRouteCommand py data = .ok (true, out, err)) :
    out = [] ∨ ∃ text, out = text ++ ['\n'] := by
  rcases sanitizeAndRouteCommand_ok py h with ⟨-, -, line, rfl, -, -⟩ | ⟨-, rfl, -⟩ | ⟨-, -, rfl, -⟩
  · exact Or.inr ⟨line, rfl⟩
  · rcases List.eq_nil_or_concat (orderTexts py data) with hnil | ⟨texts, text, htexts⟩
    · rw [hnil]
      exact Or.inl rfl
    · refine Or.inr ⟨texts.flatMap (· ++ ['\n']) ++ text, ?_⟩
      rw [htexts, List.concat_eq_append, List.flatMap_append, List.flatMap_singleton, List.append_assoc]
  · exact Or.inr ⟨_, rfl⟩

theorem getlines_flatten {texts : List Str} (h : ∀ text ∈ texts, text = [] ∨ ∃ lines, text = lines ++ ['\n']) :
    getlines texts.flatten = texts.flatMap getlines := by
  induction texts with
  | nil => rfl
  | cons text texts ih =>
    have hrest := ih fun t ht => h t (List.mem_cons_of_mem _ ht)
    rw [List.flatten_cons, List.flatMap_cons, ← hrest]
    rcases h text List.mem_cons_self with rfl | ⟨lines, rfl⟩
    · rfl
    · rw [List.append_assoc, List.singleton_append, getlines_append, getlines_newline]

/-- The text was accepted from this connection. -/
def AcceptedFrom (py : Runtime) (events : List (BridgeEvent Socket)) (w : Socket × Str) : Prop :=
  ∃ data err now, BridgeEvent.message w.1 now (some data) ∈ events ∧
    sanitizeAndRouteCommand py data = .ok (true, w.2, err)

theorem handle_text {limiter : TokenBucketRateLimiter} {now : ℚ} {payload : Option Command} {text : Str}
    (h : (handle py limiter now payload).text = some text) :
    ∃ data err, payload = some data ∧ sanitizeAndRouteCommand py data = .ok (true, text, err) := by
  unfold handle at h
  dsimp only at h
  split at h
  · cases h
  · cases payload with
    | none => cases h
    | some data =>
      dsimp only [Option.map_some] at h
      split at h
      · cases h
      · cases h
      · rename_i valid cmdStr err hrouted
        cases valid with
        | false => cases h
        | true =>
          have htext : (if cmdStr = [] then none else some cmdStr) = some text := h
          split at htext
          · cases htext
          · obtain rfl := Option.some.inj htext
            exact ⟨data, err, rfl, Option.some.inj hrouted⟩

/-- All that an event can do to the texts: it brings some of an accepted command, or moves on to another process. -/
inductive Moves (py : Runtime) (e : BridgeEvent Socket) (s s' : Sessions Socket Address) : Prop where
  | routes {texts : List (Socket × Str)} (haccepted : ∀ w ∈ texts, AcceptedFrom py [e] w)
      (hrouted : s'.routed = s.routed ++ texts)
      (hwritten : s'.written = if s.running then s.written ++ texts else s.written)
      (hrunning : e ≠ .exit → s'.running = s.running) (hearlier : s'.earlier = s.earlier) : Moves py e s s'
  | respawns (hrunning : s.running = false) (hrouted : s'.routed = s.routed) (hinputs : s'.inputs = s.inputs ++ [[]]) :
      Moves py e s s'

theorem moves_step (s : Sessions Socket Address) (e : BridgeEvent Socket) :
    Moves py e s (s.step py remoteAddress rateLimitHz rateLimitBurst e) := by
  have hnothing : ∀ s' : Sessions Socket Address, s'.routed = s.routed → s'.written = s.written →
      (e ≠ .exit → s'.running = s.running) → s'.earlier = s.earlier → Moves py e s s' :=
    fun s' hrouted hwritten hrunning hearlier =>
      @Moves.routes _ _ py e s s' [] (List.forall_mem_nil _) (by rw [hrouted, List.append_nil])
        (by rw [hwritten, List.append_nil, ite_self]) hrunning hearlier
  cases e with
  | connect websocket now => exact hnothing _ rfl rfl (fun _ => rfl) rfl
  | disconnect websocket => exact hnothing _ rfl rfl (fun _ => rfl) rfl
  | exit => exact hnothing _ rfl rfl (fun h => absurd rfl h) rfl
  | message websocket now payload =>
    unfold Sessions.step
    dsimp only
    split
    · split
      · exact hnothing _ rfl rfl (fun _ => rfl) rfl
      · refine .routes (fun w hw => ?_) rfl rfl (fun _ => rfl) rfl
        obtain ⟨text, htext, rfl⟩ := List.mem_map.1 hw
        obtain ⟨data, err, rfl, hok⟩ := handle_text (Option.mem_toList.1 htext)
        exact ⟨data, err, now, List.mem_singleton_self _, hok⟩
    · exact hnothing _ rfl rfl (fun _ => rfl) rfl
  | respawn =>
    unfold Sessions.step
    dsimp only
    split
    · exact hnothing _ rfl rfl (fun _ => rfl) rfl
    · rename_i hrunning
      exact .respawns (Bool.not_eq_true _ ▸ hrunning) rfl rfl

/-- What holds of the texts after any events. -/
structure Delivers (py : Runtime) (events : List (BridgeEvent Socket)) (s : Sessions Socket Address) : Prop where
  accepted : ∀ w ∈ s.routed, AcceptedFrom py events w
  /-- no text is written twice or in another order, and each to one process at most -/
  inOrder : s.inputs.flatten.Sublist s.routed
  /-- nothing is lost while the process runs -/
  complete : .exit ∉ events → s.running = true ∧ s.inputs = [s.routed]

omit [DecidableEq Socket] in
theorem AcceptedFrom.mono {events more : List (BridgeEvent Socket)} {w : Socket × Str} (h : AcceptedFrom py events w)
    (hsub : events ⊆ more) : AcceptedFrom py more w := by
  obtain ⟨data, err, now, hmem, hok⟩ := h
  exact ⟨data, err, now, hsub hmem, hok⟩

omit [DecidableEq Socket] [DecidableEq Address] in
theorem Delivers.step {s s' : Sessions Socket Address} {e : BridgeEvent Socket} (h : Delivers py events s)
    (hmoves : Moves py e s s') : Delivers py (events ++ [e]) s' := by
  have hold : events ⊆ events ++ [e] := List.subset_append_left ..
  cases hmoves with
  | @routes texts haccepted hrouted hwritten hrunning hearlier =>
    refine ⟨?_, ?_, fun hnone => ?_⟩
    · rw [hrouted]
      exact List.forall_mem_append.2 ⟨fun w hw => (h.accepted w hw).mono hold,
        fun w hw => (haccepted w hw).mono (List.subset_append_right ..)⟩
    · have hinOrder := h.inOrder
      rw [inputs, List.flatten_append, List.flatten_singleton] at hinOrder ⊢
      rw [hearlier, hwritten, hrouted]
      split
      · rw [← List.append_assoc]
        exact hinOrder.append (List.Sublist.refl texts)
      · exact hinOrder.trans (List.sublist_append_left ..)
    · rw [List.mem_append, not_or, List.mem_singleton] at hnone
      obtain ⟨hrun, hinputs⟩ := h.complete hnone.1
      have hparts : s.earlier ++ [s.written] = [] ++ [s.routed] := hinputs
      obtain ⟨hfirst, hlast⟩ := List.append_inj' hparts rfl
      refine ⟨(hrunning (Ne.symm hnone.2)).trans hrun, ?_⟩
      rw [inputs, hearlier, hwritten, if_pos hrun, hfirst, List.singleton_inj.1 hlast, hrouted]
      rfl
  | respawns hrunning hrouted hinputs =>
    refine ⟨?_, ?_, fun hnone => ?_⟩
    · rw [hrouted]
      exact fun w hw => (h.accepted w hw).mono hold
    · rw [hinputs, hrouted, List.flatten_append]
      simpa using h.inOrder
    · rw [List.mem_append, not_or] at hnone
      rw [(h.complete hnone.1).1] at hrunning
      cases hrunning

theorem delivers_run (events : List (BridgeEvent Socket)) :
    Delivers py events (run py remoteAddress rateLimitHz rateLimitBurst events) := by
  induction events using List.reverseRecOn with
  | nil => exact ⟨List.forall_mem_nil _, List.Sublist.refl [], fun _ => ⟨rfl, rfl⟩⟩
  | append_singleton events e ih =>
    have hrun : run py remoteAddress rateLimitHz rateLimitBurst (events ++ [e]) =
        (run py remoteAddress rateLimitHz rateLimitBurst events).step py remoteAddress rateLimitHz rateLimitBurst e :=
      List.foldl_append
    rw [hrun]
    exact ih.step (moves_step _ e)

/-- Whatever the connections do, in whatever order, and whenever the process of the engine ends: each command accepted
is written to one process at most, in order, and to the first one unless that has ended; and the lines that a process
reads, up to an `EXIT` or `QUIT`, are those of the commands written to it, one command after the other. -/
theorem engine_lines (py : Runtime) (remoteAddress : Socket → Address) (rateLimitHz rateLimitBurst : ℚ)
    (events : List (BridgeEvent Socket)) :
    let s := run py remoteAddress rateLimitHz rateLimitBurst events
    Delivers py events s ∧ ∀ input ∈ s.inputs,
      linesRead (getlines (input.map (·.2)).flatten) = linesRead (input.flatMap fun w => getlines w.2) := by
  intro s
  have hdelivers : Delivers py events s := delivers_run events
  refine ⟨hdelivers, fun input hinput => congrArg linesRead ?_⟩
  rw [getlines_flatten, List.flatMap_map]
  intro text htext
  obtain ⟨w, hw, rfl⟩ := List.mem_map.1 htext
  have hrouted : w ∈ s.routed := hdelivers.inOrder.subset (List.mem_flatten_of_mem hinput hw)
  obtain ⟨data, err, now, -, hok⟩ := hdelivers.accepted w hrouted
  exact whole_lines hok

end Sessions

end Bridge

end FeedHandler
