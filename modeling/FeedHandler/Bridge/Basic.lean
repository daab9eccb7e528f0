import FeedHandler.Foundation.PosixPath
import FeedHandler.Python.Basic

/-!
# The bridge (`bridge.py`)

`sanitizeAndRouteCommand` turns the JSON object of a client into the text that is written to the standard input of the
engine, or rejects it.  `ORDER` and `BURST` convert values; an exception of a conversion is caught for `ORDER` and
leaves the function for `BURST`.
-/

namespace FeedHandler

open Python

namespace Bridge

/-- The keys of a command that are read; `none` stands for a key that is missing. -/
structure Command where
  command : Option Value := none
  type : Option Value := none
  orderId : Option Value := none
  side : Option Value := none
  price : Option Value := none
  qty : Option Value := none
  line : Option Value := none
  lines : Option Value := none
  name : Option Value := none
  count : Option Value := none
  path : Option Value := none

/-- `(is_valid, command_string_to_engine, error_reason)` -/
abbrev Routed := Bool × Str × Str

def accept (cmdStr : Str) : Routed := (true, cmdStr, [])

def reject (reason : Str) : Routed := (false, [], reason)

/-- Formats and sanitizes an ORDER command line; the text of the exception if one is raised. -/
def formatOrderCommand (py : Runtime) (orderType orderId side price qty : Value) : Except Str Str :=
  let orderType := upper py (strip (str py orderType))
  if orderType ≠ ['A'] ∧ orderType ≠ ['X'] ∧ orderType ≠ ['E'] then
    .error ("Invalid order type: ".toList ++ orderType)
  else do
    let id ← int py orderId
    if id ≤ 0 then
      .error ("Invalid order ID: ".toList ++ str py orderId)
    else if orderType = ['A'] then
      let side := upper py (strip (str py side))
      if side ≠ ['B'] ∧ side ≠ ['S'] then
        .error ("Invalid side: ".toList ++ side)
      else do
        let p ← float py price
        if p.nonpos then
          .error "Price and quantity must be positive".toList
        else do
          let q ← int py qty
          if q ≤ 0 then
            .error "Price and quantity must be positive".toList
          else
            .ok ("A,".toList ++ decimalStr id ++ [','] ++ side ++ [','] ++ p.fixed2 ++ [','] ++ decimalStr q ++ ['\n'])
    else if orderType = ['X'] then do
      let q ← int py qty
      .ok ("X,".toList ++ decimalStr id ++ ",0,0,".toList ++ decimalStr q ++ ['\n'])
    else do
      let p ← float py price
      let q ← int py qty
      .ok ("E,".toList ++ decimalStr id ++ ",0,".toList ++ p.fixed2 ++ [','] ++ decimalStr q ++ ['\n'])

def allowedCommands : List Str :=
  ["ORDER".toList, "RAW_LINE".toList, "BATCH".toList, "LOAD_EXAMPLE".toList, "RESET".toList, "CLEAR".toList,
    "BURST".toList, "CROSS".toList, "FILE".toList]

/-- Branch `ORDER`. -/
def routeOrder (py : Runtime) (data : Command) : Routed :=
  match formatOrderCommand py (data.type.getD (.str ['A'])) (data.orderId.getD (.int 1)) (data.side.getD (.str ['B']))
      (data.price.getD (.float (.finite false 100))) (data.qty.getD (.int 100)) with
  | .ok cmdStr => accept cmdStr
  | .error e => reject e

/-- The line of a `RAW_LINE`, stripped. -/
def rawLine (py : Runtime) (data : Command) : Str := strip (str py (data.line.getD (.str [])))

/-- Branch `RAW_LINE`. -/
def routeRawLine (py : Runtime) (data : Command) : Routed :=
  let raw := rawLine py data
  match raw with
  | [] => reject "Line length invalid".toList
  | firstChar :: _ =>
    if raw.length > 256 then
      reject "Line length invalid".toList
    else if py.upper firstChar ∈ [['A'], ['X'], ['E'], ['#'], ['/']] then
      accept (raw ++ ['\n'])
    else if startswith (upper py raw) "ORDER ".toList then
      accept (raw ++ ['\n'])
    else
      reject ("Invalid raw line syntax: ".toList ++ raw)

/-- The first characters that a line of a batch may have. -/
def batchStarts : List Char := ['A', 'X', 'E', 'a', 'x', 'e', '#', '/']

def keepBatchLine (lineStr : Str) : Bool :=
  match lineStr with
  | [] => false
  | firstChar :: _ => lineStr.length ≤ 256 && firstChar ∈ batchStarts

/-- The lines of a batch that are kept. -/
def batchLines (py : Runtime) (lines : List Value) : List Str :=
  (lines.map fun l => strip (str py l)).filter keepBatchLine

/-- Branch `BATCH`. -/
def routeBatch (py : Runtime) (data : Command) : Routed :=
  match data.lines.getD (.list []) with
  | .list lines =>
    if lines.length > 50000 then
      reject "Batch size exceeds 50,000 line limit".toList
    else
      accept ((batchLines py lines).flatMap (· ++ ['\n']))
  | _ => reject "Batch size exceeds 50,000 line limit".toList

def exampleNames : List Str :=
  ["aapl".toList, "nvda".toList, "sweep".toList, "aapl_l2_book".toList, "nvda_order_flow".toList,
    "market_cross_sweep".toList]

/-- Branch `LOAD_EXAMPLE`. -/
def routeLoadExample (py : Runtime) (data : Command) : Routed :=
  let name := py.lower (strip (str py (data.name.getD (.str "aapl".toList))))
  if name ∈ exampleNames then
    accept ("LOAD_EXAMPLE ".toList ++ name ++ ['\n'])
  else
    reject ("Unknown example: ".toList ++ name)

/-- Branch `BURST`. -/
def routeBurst (py : Runtime) (data : Command) : Except Str Routed := do
  let count ← int py (data.count.getD (.int 100000))
  .ok (accept ("BURST ".toList ++ decimalStr (min count 500000) ++ ['\n']))

/-- The path of a `FILE`, normalised. -/
def cleanPath (py : Runtime) (data : Command) : Str :=
  PosixPath.normpath (strip (str py (data.path.getD (.str []))))

/-- `not (clean_path.startswith("..") or os.path.isabs(clean_path))` -/
def pathAllowed (path : Str) : Bool := !(startswith path PosixPath.pardir || PosixPath.isabs path)

/-- Branch `FILE`. -/
def routeFile (py : Runtime) (data : Command) : Routed :=
  if !pathAllowed (cleanPath py data) then
    reject "Disallowed absolute or parent directory file path".toList
  else
    accept ("FILE ".toList ++ cleanPath py data ++ ['\n'])

/-- The name of the command. -/
def commandName (py : Runtime) (data : Command) : Str := upper py (strip (str py (data.command.getD (.str []))))

/-- Validates client command against the strict allowlist; the text of the exception if one is raised. -/
def sanitizeAndRouteCommand (py : Runtime) (data : Command) : Except Str Routed :=
  let cmd := commandName py data
  if cmd ∉ allowedCommands then .ok (reject ("Disallowed command: ".toList ++ cmd))
  else if cmd = "ORDER".toList then .ok (routeOrder py data)
  else if cmd = "RAW_LINE".toList then .ok (routeRawLine py data)
  else if cmd = "BATCH".toList then .ok (routeBatch py data)
  else if cmd = "LOAD_EXAMPLE".toList then .ok (routeLoadExample py data)
  else if cmd = "RESET".toList ∨ cmd = "CLEAR".toList then .ok (accept "RESET\n".toList)
  else if cmd = "BURST".toList then routeBurst py data
  else if cmd = "CROSS".toList then .ok (accept "CROSS\n".toList)
  else if cmd = "FILE".toList then .ok (routeFile py data)
  else .ok (reject "Invalid command".toList)

example :
    (sanitizeAndRouteCommand ascii
      { command := some (.str "ORDER".toList), type := some (.str "A".toList), orderId := some (.int 1005),
        side := some (.str "S".toList), price := some (.float (.finite false (451 / 2))),
        qty := some (.int 300) }).toOption.map (·.2.1) =
      some "A,1005,S,225.50,300\n".toList := by decide +kernel

end Bridge

end FeedHandler
