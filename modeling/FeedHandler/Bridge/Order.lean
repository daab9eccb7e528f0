import FeedHandler.Bridge.Basic

/-!
# The order in an `ORDER` command

`formatOrderCommand` converts the values of the client, checks some of them and prints them.  The order is what it has
converted; it is printed exactly when the conversions and the checks of its type succeed (`formatOrderCommand_eq_ok`).
-/

namespace FeedHandler

open Python

namespace Bridge

/-- A side that is accepted. -/
abbrev OrderSide := {side : Char // side = 'B' ∨ side = 'S'}

/-- The converted values; those that are not printed are left out. -/
inductive Order where
  | add (id : Int) (side : OrderSide) (price : Double) (qty : Int)
  | cancel (id qty : Int)
  | execute (id : Int) (price : Double) (qty : Int)

namespace Order

/-- What is printed between the commas. -/
def tokens : Order → List Str
  | .add id side price qty => [['A'], decimalStr id, [side.1], price.fixed2, decimalStr qty]
  | .cancel id qty => [['X'], decimalStr id, ['0'], ['0'], decimalStr qty]
  | .execute id price qty => [['E'], decimalStr id, ['0'], price.fixed2, decimalStr qty]

/-- The line, without its line break. -/
def line (o : Order) : Str := [','].intercalate o.tokens

/-- The values are converted to those of the order, and pass the checks for its type. -/
def ReadFrom (py : Runtime) (orderType orderId side price qty : Value) : Order → Prop
  | .add id side' price' qty' =>
    upper py (strip (str py orderType)) = ['A'] ∧ int py orderId = .ok id ∧ 0 < id ∧
      upper py (strip (str py side)) = [side'.1] ∧ float py price = .ok price' ∧ price'.nonpos = false ∧
      int py qty = .ok qty' ∧ 0 < qty'
  | .cancel id qty' =>
    upper py (strip (str py orderType)) = ['X'] ∧ int py orderId = .ok id ∧ 0 < id ∧ int py qty = .ok qty'
  | .execute id price' qty' =>
    upper py (strip (str py orderType)) = ['E'] ∧ int py orderId = .ok id ∧ 0 < id ∧ float py price = .ok price' ∧
      int py qty = .ok qty'

theorem line_add (id : Int) (side : OrderSide) (price : Double) (qty : Int) : (add id side price qty).line =
    "A,".toList ++ decimalStr id ++ [','] ++ [side.1] ++ [','] ++ price.fixed2 ++ [','] ++ decimalStr qty := by
  simp [line, tokens, List.intercalate_cons_cons]

theorem line_cancel (id qty : Int) :
    (cancel id qty).line = "X,".toList ++ decimalStr id ++ ",0,0,".toList ++ decimalStr qty := by
  simp [line, tokens, List.intercalate_cons_cons]

theorem line_execute (id : Int) (price : Double) (qty : Int) : (execute id price qty).line =
    "E,".toList ++ decimalStr id ++ ",0,".toList ++ price.fixed2 ++ [','] ++ decimalStr qty := by
  simp [line, tokens, List.intercalate_cons_cons]

/-- The line is one line. -/
theorem newline_line (o : Order) : '\n' ∉ o.line := by
  apply newline_intercalate (by decide)
  cases o with
  | add id side price qty =>
    have hside : '\n' ≠ side.1 := by
      rcases side.2 with h | h
      · simp [h]
      · simp [h]
    simp [tokens, newline_decimalStr, newline_fixed2, hside]
  | cancel id qty => simp [tokens, newline_decimalStr]
  | execute id price qty => simp [tokens, newline_decimalStr, newline_fixed2]

end Order

variable {py : Runtime} {orderType orderId side price qty : Value} {out : Str}

/-- An order is read from the values of a command that is formatted. -/
theorem exists_readFrom (h : formatOrderCommand py orderType orderId side price qty = .ok out) :
    ∃ o : Order, o.ReadFrom py orderType orderId side price qty ∧ out = o.line ++ ['\n'] := by
  unfold formatOrderCommand at h
  dsimp only at h
  split at h
  · cases h
  · rename_i htype
    obtain ⟨id, hid, h⟩ := bind_eq_ok.1 h
    split at h
    · cases h
    · rename_i hpos
      have hpos : 0 < id := Int.not_le.1 hpos
      split at h
      · -- `A`: the only type whose side, price and quantity are checked
        rename_i hadd
        split at h
        · cases h
        · rename_i hside
          obtain ⟨p, hp, h⟩ := bind_eq_ok.1 h
          split at h
          · cases h
          · rename_i hprice
            obtain ⟨q, hq, h⟩ := bind_eq_ok.1 h
            split at h
            · cases h
            · rename_i hqty
              cases h
              have hqty : 0 < q := Int.not_le.1 hqty
              have hprice : p.nonpos = false := by simpa using hprice
              obtain ⟨side', hside⟩ : ∃ side' : OrderSide, upper py (strip (str py side)) = [side'.1] := by
                by_cases hbuy : upper py (strip (str py side)) = ['B']
                · exact ⟨⟨'B', Or.inl rfl⟩, hbuy⟩
                · exact ⟨⟨'S', Or.inr rfl⟩, by_contra fun hsell => hside ⟨hbuy, hsell⟩⟩
              exact ⟨.add id side' p q, ⟨hadd, hid, hpos, hside, hp, hprice, hq, hqty⟩, by rw [Order.line_add, hside]⟩
      · rename_i hadd
        split at h
        · rename_i hcancel
          obtain ⟨q, hq, h⟩ := bind_eq_ok.1 h
          cases h
          exact ⟨.cancel id q, ⟨hcancel, hid, hpos, hq⟩, by rw [Order.line_cancel]⟩
        · rename_i hcancel
          obtain ⟨p, hp, h⟩ := bind_eq_ok.1 h
          obtain ⟨q, hq, h⟩ := bind_eq_ok.1 h
          cases h
          have hexecute : upper py (strip (str py orderType)) = ['E'] := by
            by_contra hexecute
            exact htype ⟨hadd, hcancel, hexecute⟩
          exact ⟨.execute id p q, ⟨hexecute, hid, hpos, hp, hq⟩, by rw [Order.line_execute]⟩

/-- An order that is read is printed. -/
theorem Order.ReadFrom.formatOrderCommand_eq {o : Order} (h : o.ReadFrom py orderType orderId side price qty) :
    formatOrderCommand py orderType orderId side price qty = .ok (o.line ++ ['\n']) := by
  unfold formatOrderCommand
  dsimp only
  cases o with
  | add id side' p q =>
    obtain ⟨htype, hid, hpos, hside, hp, hprice, hq, hqty⟩ := h
    have hallowed : ¬ ([side'.1] ≠ ['B'] ∧ [side'.1] ≠ ['S']) := by
      rcases side'.2 with hbuy | hsell
      · simp [hbuy]
      · simp [hsell]
    rw [htype, hside, if_neg (by decide)]
    refine bind_eq_ok.2 ⟨id, hid, ?_⟩
    rw [if_neg (Int.not_le.2 hpos), if_pos rfl, if_neg hallowed]
    refine bind_eq_ok.2 ⟨p, hp, ?_⟩
    rw [if_neg (by simp [hprice])]
    refine bind_eq_ok.2 ⟨q, hq, ?_⟩
    rw [if_neg (Int.not_le.2 hqty), line_add]
  | cancel id q =>
    obtain ⟨htype, hid, hpos, hq⟩ := h
    rw [htype, if_neg (by decide)]
    refine bind_eq_ok.2 ⟨id, hid, ?_⟩
    rw [if_neg (Int.not_le.2 hpos), if_neg (by decide), if_pos rfl]
    exact bind_eq_ok.2 ⟨q, hq, by rw [line_cancel]⟩
  | execute id p q =>
    obtain ⟨htype, hid, hpos, hp, hq⟩ := h
    rw [htype, if_neg (by decide)]
    refine bind_eq_ok.2 ⟨id, hid, ?_⟩
    rw [if_neg (Int.not_le.2 hpos), if_neg (by decide), if_neg (by decide)]
    exact bind_eq_ok.2 ⟨p, hp, bind_eq_ok.2 ⟨q, hq, by rw [line_execute]⟩⟩

theorem formatOrderCommand_eq_ok :
    formatOrderCommand py orderType orderId side price qty = .ok out ↔
      ∃ o : Order, o.ReadFrom py orderType orderId side price qty ∧ out = o.line ++ ['\n'] := by
  constructor
  · exact exists_readFrom
  · rintro ⟨o, h, rfl⟩
    exact h.formatOrderCommand_eq

end Bridge

end FeedHandler
