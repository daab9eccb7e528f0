import FeedHandler.OrderBook.OrderlyFeed

/-!
# Coherent feeds

A feed is coherent when it is orderly but for its numbers: an Add comes with an id that was not used before, and an
X or E is about an order that was added and not withdrawn.  That is what is left to ask of a sender that shares its
numbers with another one.  A coherent feed is steady, and orderly as soon as its numbers count from one on.
-/

namespace FeedHandler

namespace LimitOrderBook

variable {m : WireMessage} {lot : ℕ} {sent earlier msgs : List WireMessage}

/-- What a feed may send after `sent`, whatever its number. -/
structure MayFollow (lot : ℕ) (sent : List WireMessage) (m : WireMessage) : Prop where
  valid : m.isValid = true
  fresh : m.msgType = 'A'.toUInt8 → m.orderId ∉ addedIds sent ∧ m.add.quantity.toInt ≤ lot
  known : m.msgType ≠ 'A'.toUInt8 → m.orderId ∈ addedIds sent ∧ m.orderId ∉ withdrawnIds sent
  cancel : m.msgType = 'X'.toUInt8 → m.cancel.quantity.toInt ≤ lot

def Coherent (lot : ℕ) (msgs : List WireMessage) : Prop :=
  ∀ pre m post, msgs = pre ++ m :: post → MayFollow lot pre m

theorem MayFollow.maySend (h : MayFollow lot sent m) (hseqNo : m.seqNo.toNat = sent.length + 1) :
    MaySend lot sent m :=
  ⟨h.valid, hseqNo, h.fresh, h.known, h.cancel⟩

theorem coherent_nil (lot : ℕ) : Coherent lot [] := fun pre m post he => by simp at he

theorem Coherent.append_singleton (h : Coherent lot msgs) (hm : MayFollow lot msgs m) :
    Coherent lot (msgs ++ [m]) := by
  intro pre x post he
  rcases List.eq_nil_or_concat post with rfl | ⟨post', y, rfl⟩
  · obtain ⟨rfl, hx⟩ := List.append_inj' he rfl
    obtain rfl := List.singleton_inj.1 hx
    exact hm
  · have hparts : msgs ++ [m] = (pre ++ x :: post') ++ [y] := by rw [he]; simp
    exact h pre x post' (List.append_inj_left' hparts rfl)

theorem Coherent.of_append (h : Coherent lot msgs) {pre : List WireMessage} (post : List WireMessage)
    (he : msgs = pre ++ post) : Coherent lot pre :=
  fun p m q hp => h p m (q ++ post) (by rw [he, hp, List.append_assoc]; rfl)

theorem Coherent.last (h : Coherent lot (msgs ++ [m])) : MayFollow lot msgs m := h msgs m [] rfl

theorem withdrawnIds_append (msgs more : List WireMessage) :
    withdrawnIds (msgs ++ more) = withdrawnIds msgs ++ withdrawnIds more := by
  simp [withdrawnIds]

/-- Only what was added is withdrawn. -/
theorem Coherent.withdrawn_added (h : Coherent lot msgs) {id : UInt64} (hid : id ∈ withdrawnIds msgs) :
    id ∈ addedIds msgs := by
  induction msgs using List.reverseRecOn with
  | nil => simp [withdrawnIds] at hid
  | append_singleton msgs m ih =>
    rw [mem_addedIds_append]
    rcases mem_withdrawnIds_append.1 hid with hid | ⟨⟨hX, -⟩, rfl⟩
    · exact Or.inl (ih (h.of_append [m] rfl) hid)
    · have hA : m.msgType ≠ 'A'.toUInt8 := by rw [hX]; decide
      exact Or.inl (h.last.known hA).1

/-- Two steady feeds with ids of their own. -/
theorem Steady.append {lot' : ℕ} {more : List WireMessage} (h : Steady lot msgs) (h' : Steady lot' more)
    (hle : lot ≤ lot') (hdisjoint : ∀ id ∈ addedIds more, id ∉ addedIds msgs) : Steady lot' (msgs ++ more) := by
  have hlot : (lot : ℤ) ≤ lot' := by exact_mod_cast hle
  refine ⟨List.forall_mem_append.2 ⟨h.valid, h'.valid⟩, ?_, ?_, ?_⟩
  · rw [addedIds_append, List.nodup_append']
    exact ⟨h.fresh, h'.fresh, fun id hin hin' => hdisjoint id hin' hin⟩
  · exact List.forall_mem_append.2 ⟨fun m hm hA => (h.add m hm hA).trans hlot, h'.add⟩
  · exact List.forall_mem_append.2 ⟨fun m hm hX => (h.cancel m hm hX).trans hlot, h'.cancel⟩

theorem mem_addedIds_singleton {id : UInt64} : id ∈ addedIds [m] ↔ m.msgType = 'A'.toUInt8 ∧ m.orderId = id := by
  rw [← List.nil_append [m], mem_addedIds_append]
  exact or_iff_right List.not_mem_nil

theorem MayFollow.steady (h : MayFollow lot sent m) : Steady lot [m] where
  valid := List.forall_mem_singleton.2 h.valid
  fresh := by by_cases hA : m.msgType = 'A'.toUInt8 <;> simp [addedIds, hA]
  add := List.forall_mem_singleton.2 fun hA => (h.fresh hA).2
  cancel := List.forall_mem_singleton.2 h.cancel

theorem Coherent.steady (h : Coherent lot msgs) : Steady lot msgs := by
  induction msgs using List.reverseRecOn with
  | nil => exact (orderly_nil lot).steady
  | append_singleton msgs m ih =>
    refine (ih (h.of_append [m] rfl)).append h.last.steady (le_refl lot) fun id hid => ?_
    obtain ⟨hA, rfl⟩ := mem_addedIds_singleton.1 hid
    exact (h.last.fresh hA).1

/-- A message may follow a feed that it may follow the last part of, if the ids of the other part are not among those
added since. -/
theorem MayFollow.after (h : MayFollow lot sent m) (hearlier : Coherent lot earlier)
    (hdisjoint : ∀ id ∈ addedIds earlier, id ∉ addedIds sent)
    (hnew : m.msgType = 'A'.toUInt8 → m.orderId ∉ addedIds earlier) : MayFollow lot (earlier ++ sent) m := by
  refine ⟨h.valid, fun hA => ⟨?_, (h.fresh hA).2⟩, fun hne => ?_, h.cancel⟩
  · rw [addedIds_append, List.mem_append, not_or]
    exact ⟨hnew hA, (h.fresh hA).1⟩
  · obtain ⟨hadded, hkept⟩ := h.known hne
    rw [addedIds_append, withdrawnIds_append, List.mem_append, List.mem_append, not_or]
    exact ⟨Or.inr hadded, fun hw => hdisjoint _ (hearlier.withdrawn_added hw) hadded, hkept⟩

end LimitOrderBook

end FeedHandler
