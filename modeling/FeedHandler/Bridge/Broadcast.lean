import FeedHandler.Foundation.IteratedSet

/-!
# The broadcast of `read_cpp_stdout_loop`

The broadcast sends a line to a snapshot of `connected_clients` and waits for all of the sends; meanwhile `ws_handler`
adds the clients that connect and discards those that disconnect.  Then the results are paired, by their positions,
with the clients as they are iterated *after* the wait.

The clients removed are those whose sends failed if the set is the same as before, if no send failed, or if nobody but
the failed clients is left and they came first in the snapshot; in all other cases there is an order of iteration for
which they are not (`drops_failed_iff`).
-/

namespace FeedHandler

namespace Broadcast

open IteratedSet

/-- What `gather` returns for a task: the value of `send`, or the exception that it raised. -/
inductive SendResult where
  | none
  | connectionClosed
  | exception
deriving DecidableEq, Repr

/-- `isinstance(res, (websockets.exceptions.ConnectionClosed, Exception))` -/
def SendResult.isFailure : SendResult → Bool
  | .none => false
  | .connectionClosed => true
  | .exception => true

variable {Client : Type}

/-- `await asyncio.gather(*tasks, return_exceptions=True)`, with a task for each client of the snapshot. -/
def gather (snapshot : List Client) (send : Client → SendResult) : List SendResult := snapshot.map send

/-- The loop behind the `await`: `connected_clients` after it, given `list(connected_clients)` at its start. -/
def discardFailed [DecidableEq Client] (clients : List Client) (results : List SendResult) : List Client :=
  (clients.zip results).foldl (fun connected p => if p.2.isFailure then connected.erase p.1 else connected) clients

variable (before after : IteratedSet Client) (send : Client → SendResult)

/-- The clients that the loop removes, when `connected_clients` was `before` at the snapshot and is `after` when the
wait is over.  Without any client there is no snapshot, and nothing is removed. -/
def removed [DecidableEq Client] : List Client :=
  after.order.filter (· ∉ discardFailed after.order (gather before.order send))

/-- The send of the snapshot to this client failed. -/
def SendFailed (client : Client) : Prop := client ∈ before.order ∧ (send client).isFailure = true

/-- The result at this position is a failure. -/
def FailedAt (i : Nat) : Prop := ∃ client, before.order[i]? = some client ∧ (send client).isFailure = true

/-- The broadcast drops exactly the failed clients. -/
def DropsFailed [DecidableEq Client] : Prop :=
  ∀ client, client ∈ removed before after send ↔ SendFailed before send client

/-- The clients stand at the positions of failures after the wait if their own sends failed, and only then. -/
def Aligned : Prop :=
  ∀ i client, after.order[i]? = some client → (SendFailed before send client ↔ FailedAt before send i)

/-- The clients whose sends failed, in the order of the snapshot. -/
def failedClients : List Client := before.order.filter fun client => (send client).isFailure

/-- While the sends are under way nothing changes; or no send fails; or all but the failed clients leave, and these come
first in the snapshot. -/
def Undisturbed [DecidableEq Client] (changes : List (Change Client)) : Prop :=
  ¬Changed changes before.order ∨ (∀ client ∈ before.order, (send client).isFailure = false) ∨
    failedClients before send <+: before.order ∧
      (members changes before.order).Perm (failedClients before send)

variable {before after : IteratedSet Client} {send : Client → SendResult} {client : Client} {i : Nat}

/-! ### Positions -/

/-- A client has one position. -/
theorem position_unique (s : IteratedSet Client) {j : Nat} (hi : s.order[i]? = some client)
    (hj : s.order[j]? = some client) : i = j := by
  have hlt : i < s.order.length := (List.getElem?_eq_some_iff.1 hi).1
  exact (List.getElem?_inj hlt s.nodup).1 (hi.trans hj.symm)

/-- Where the places of the chosen elements come first, these elements do. -/
theorem filter_initial {p : Client → Bool} {l : List Client}
    (h : ∀ i < (l.filter p).length, ∃ x, l[i]? = some x ∧ p x = true) : l.filter p <+: l := by
  induction l with
  | nil => exact List.nil_prefix
  | cons x l ih =>
    cases hx : p x with
    | false =>
      -- the first place is not chosen, so none is
      have hnil : (x :: l).filter p = [] := by
        by_contra hne
        obtain ⟨y, hy, hp⟩ := h 0 (List.length_pos_iff.2 hne)
        obtain rfl : x = y := by simpa using hy
        rw [hx] at hp
        cases hp
      rw [hnil]
      exact List.nil_prefix
    | true =>
      rw [List.filter_cons_of_pos hx] at h ⊢
      rw [List.cons_prefix_cons]
      refine ⟨rfl, ih fun i hi => ?_⟩
      have hnext := h (i + 1) (by simpa using hi)
      simpa using hnext

theorem mem_failedClients : client ∈ failedClients before send ↔ SendFailed before send client := List.mem_filter

theorem mem_zip_gather {clients snapshot : List Client} {res : SendResult} :
    (client, res) ∈ clients.zip (gather snapshot send) ↔
      ∃ i : Nat, clients[i]? = some client ∧ ∃ c, snapshot[i]? = some c ∧ send c = res := by
  rw [List.mem_iff_getElem?]
  simp only [List.getElem?_zip_eq_some, gather, List.getElem?_map, Option.map_eq_some_iff]

theorem not_failedAt (h : ∀ client ∈ before.order, (send client).isFailure = false) (i : Nat) :
    ¬FailedAt before send i := by
  rintro ⟨client, hi, hfail⟩
  rw [h client (List.mem_of_getElem? hi)] at hfail
  cases hfail

/-- As long as the set does not change, a client stands at the position of its own result. -/
theorem aligned_self : Aligned before before send := by
  intro i client hi
  constructor
  · intro hfailed
    exact ⟨client, hi, hfailed.2⟩
  · rintro ⟨c, hc, hfail⟩
    rw [hi] at hc
    obtain rfl := Option.some.inj hc
    exact ⟨List.mem_of_getElem? hi, hfail⟩

theorem aligned_of_none_failed (h : ∀ client ∈ before.order, (send client).isFailure = false) :
    Aligned before after send := by
  intro i client _
  refine iff_of_false (fun hfailed => ?_) (not_failedAt h i)
  have hfail := hfailed.2
  rw [h client hfailed.1] at hfail
  cases hfail

/-- Only the failed clients are left, and their results are the first ones. -/
theorem aligned_of_initial (hinit : failedClients before send <+: before.order)
    (hleft : after.order.Perm (failedClients before send)) : Aligned before after send := by
  intro i client hi
  have hlt : i < (failedClients before send).length := by
    rw [← hleft.length_eq]
    exact (List.getElem?_eq_some_iff.1 hi).1
  have hat : before.order[i]? = some (failedClients before send)[i] := by
    rw [← List.prefix_iff_getElem?.1 hinit i hlt]
  have hfail := (mem_failedClients.1 (List.getElem_mem hlt)).2
  refine iff_of_true ?_ ⟨_, hat, hfail⟩
  exact mem_failedClients.1 (hleft.mem_iff.1 (List.mem_of_getElem? hi))

variable [DecidableEq Client] {changes : List (Change Client)}

/-! ### The loop -/

/-- The loop discards the clients that are paired with a failure. -/
theorem mem_foldl_discard {pairs : List (Client × SendResult)} {connected : List Client} (h : connected.Nodup) :
    client ∈ pairs.foldl (fun connected p => if p.2.isFailure then connected.erase p.1 else connected) connected ↔
      client ∈ connected ∧ ∀ res, (client, res) ∈ pairs → res.isFailure = false := by
  induction pairs generalizing connected with
  | nil => simp
  | cons p pairs ih =>
    obtain ⟨c, res⟩ := p
    rw [List.foldl_cons]
    cases hres : res.isFailure with
    | false =>
      rw [if_neg (by simp), ih h]
      grind
    | true =>
      rw [if_pos rfl, ih (h.erase c), h.mem_erase_iff]
      grind

theorem mem_removed_iff :
    client ∈ removed before after send ↔ ∃ i : Nat, after.order[i]? = some client ∧ FailedAt before send i := by
  rw [removed, List.mem_filter, decide_eq_true_iff, discardFailed, mem_foldl_discard after.nodup]
  constructor
  · rintro ⟨hmem, hpaired⟩
    have hfail : ∃ res, (client, res) ∈ after.order.zip (gather before.order send) ∧ res.isFailure = true := by
      by_contra hno
      push Not at hno
      exact hpaired ⟨hmem, fun res hres => Bool.eq_false_iff.2 (hno res hres)⟩
    obtain ⟨res, hres, htrue⟩ := hfail
    obtain ⟨i, hi, c, hc, rfl⟩ := mem_zip_gather.1 hres
    exact ⟨i, hi, c, hc, htrue⟩
  · rintro ⟨i, hi, c, hc, htrue⟩
    refine ⟨List.mem_of_getElem? hi, fun hpaired => ?_⟩
    have hfalse := hpaired.2 (send c) (mem_zip_gather.2 ⟨i, hi, c, hc, rfl⟩)
    rw [htrue] at hfalse
    cases hfalse

/-! ### One order of iteration -/

theorem dropsFailed_iff_aligned :
    DropsFailed before after send ↔
      (∀ client, SendFailed before send client → client ∈ after.order) ∧ Aligned before after send := by
  constructor
  · intro h
    refine ⟨fun client hfailed => ?_, fun i client hi => ⟨fun hfailed => ?_, fun hat => ?_⟩⟩
    · obtain ⟨i, hi, -⟩ := mem_removed_iff.1 ((h client).2 hfailed)
      exact List.mem_of_getElem? hi
    · obtain ⟨j, hj, hat⟩ := mem_removed_iff.1 ((h client).2 hfailed)
      rwa [position_unique after hi hj]
    · exact (h client).1 (mem_removed_iff.2 ⟨i, hi, hat⟩)
  · rintro ⟨hconnected, haligned⟩ client
    rw [mem_removed_iff]
    constructor
    · rintro ⟨i, hi, hat⟩
      exact (haligned i client hi).2 hat
    · intro hfailed
      obtain ⟨i, hi⟩ := List.mem_iff_getElem?.1 (hconnected client hfailed)
      exact ⟨i, hi, (haligned i client hi).1 hfailed⟩

/-! ### All orders of iteration -/

/-- Whether or not they change the set, the changes lead to some set with these members. -/
theorem changes_members (h : Changed changes before.order) {order : List Client}
    (hperm : order.Perm (members changes before.order)) :
    before.Changes changes ⟨order, hperm.nodup_iff.2 (members_nodup changes before.nodup)⟩ := by
  rw [changes_iff, if_pos h]
  exact hperm

theorem Undisturbed.dropsFailed (h : Undisturbed before send changes) (hafter : before.Changes changes after) :
    DropsFailed before after send := by
  rw [dropsFailed_iff_aligned]
  rcases h with hsame | hnone | ⟨hinit, hleft⟩
  · rw [changes_iff, if_neg hsame] at hafter
    rw [hafter]
    exact ⟨fun client hfailed => hfailed.1, aligned_self⟩
  · refine ⟨fun client hfailed => ?_, aligned_of_none_failed hnone⟩
    have hfail := hfailed.2
    rw [hnone client hfailed.1] at hfail
    cases hfail
  · have hperm := hafter.perm.trans hleft
    exact ⟨fun client hfailed => hperm.mem_iff.2 (mem_failedClients.2 hfailed), aligned_of_initial hinit hperm⟩

/-- If the first place can be taken by any member, and a failed client is one, then all of them are failed clients. -/
theorem sendFailed_of_mem (hdrops : ∀ after, before.Changes changes after → DropsFailed before after send)
    (hchanged : Changed changes before.order) {failed : Client} (hfailed : SendFailed before send failed)
    (hmem : client ∈ members changes before.order) : SendFailed before send client := by
  have hany := dropsFailed_iff_aligned.1 (hdrops _ (changes_members hchanged (List.Perm.refl _)))
  have hin : failed ∈ members changes before.order := hany.1 failed hfailed
  -- an order that starts with the failed client, and one that starts with the other
  have hfirst := dropsFailed_iff_aligned.1 (hdrops _ (changes_members hchanged (List.perm_cons_erase hin).symm))
  have hother := dropsFailed_iff_aligned.1 (hdrops _ (changes_members hchanged (List.perm_cons_erase hmem).symm))
  have hat : FailedAt before send 0 := (hfirst.2 0 failed rfl).1 hfailed
  exact (hother.2 0 client rfl).2 hat

theorem undisturbed_of_dropsFailed (hdrops : ∀ after, before.Changes changes after → DropsFailed before after send) :
    Undisturbed before send changes := by
  by_cases hchanged : Changed changes before.order
  · by_cases hnone : ∀ client ∈ before.order, (send client).isFailure = false
    · exact Or.inr (Or.inl hnone)
    · push Not at hnone
      obtain ⟨failed, hbefore, hfail⟩ := hnone
      have hfailed : SendFailed before send failed := ⟨hbefore, by simpa using hfail⟩
      have hany := dropsFailed_iff_aligned.1 (hdrops _ (changes_members hchanged (List.Perm.refl _)))
      have hleft : (members changes before.order).Perm (failedClients before send) := by
        refine (List.perm_ext_iff_of_nodup (members_nodup changes before.nodup) (before.nodup.filter _)).2 ?_
        intro client
        refine Iff.trans ?_ mem_failedClients.symm
        exact ⟨sendFailed_of_mem hdrops hchanged hfailed, hany.1 client⟩
      refine Or.inr (Or.inr ⟨filter_initial fun i hi => ?_, hleft⟩)
      -- the `i`-th of the members left is a failed client, whatever their order
      have hlt : i < (members changes before.order).length := by
        rw [hleft.length_eq]
        exact hi
      have hmem := List.getElem_mem hlt
      exact (hany.2 i _ (List.getElem?_eq_getElem hlt)).1 (sendFailed_of_mem hdrops hchanged hfailed hmem)
  · exact Or.inl hchanged

/-- For one order of iteration the broadcast drops exactly the failed clients if all of these are still connected and
the clients stand at the positions of failures just when their own sends failed; for all orders in which the set can be
iterated after the given connects and disconnects, if the broadcast is undisturbed. -/
theorem drops_failed_iff (before : IteratedSet Client) (send : Client → SendResult) :
    (∀ after, DropsFailed before after send ↔
      (∀ client, SendFailed before send client → client ∈ after.order) ∧ Aligned before after send) ∧
    ∀ changes, (∀ after, before.Changes changes after → DropsFailed before after send) ↔
      Undisturbed before send changes :=
  ⟨fun _ => dropsFailed_iff_aligned,
    fun _ => ⟨undisturbed_of_dropsFailed, fun h _ hafter => h.dropsFailed hafter⟩⟩

/-- The send to client 1 fails, client 2 is healthy; client 3 connects and comes first from then on.  Client 3 is
charged with the failure, and client 1 stays. -/
theorem drops_failed_shifted :
    ¬ ∀ (before after : IteratedSet Nat) (send : Nat → SendResult) (changes : List (Change Nat)),
      before.Changes changes after → DropsFailed before after send := by
  intro h
  have hdrops := h ⟨[1, 2], by decide⟩ ⟨[3, 1, 2], by decide⟩
    (fun client => if client = 1 then .connectionClosed else .none) [.add 3] (by
      rw [changes_iff, if_pos (by decide)]
      decide)
  have hremoved := (hdrops 3).1 (by decide)
  revert hremoved
  unfold SendFailed
  decide

end Broadcast

end FeedHandler
