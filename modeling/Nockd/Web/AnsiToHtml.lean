import Mathlib.Data.Nat.Notation

/-!
# Log lines as HTML

The dashboard turns a log line into HTML: the text is escaped, the verbs of the log are
highlighted, and each SGR sequence sets the style of what follows it. A string of the browser is
the list of its code units.
-/

namespace Nockd

namespace Web

abbrev JsString := List UInt16

/-- A literal in ASCII. -/
def js (s : String) : JsString := s.toList.map fun c => UInt16.ofNat c.toNat

def ltUnit : UInt16 := 0x3c

def gtUnit : UInt16 := 0x3e

def escUnit : UInt16 := 0x1b

def bracketUnit : UInt16 := 0x5b

def mUnit : UInt16 := 0x6d

def semicolonUnit : UInt16 := 0x3b

/-! ## Escaping and highlighting -/

/-- The characters that are escaped, and what is written for them. -/
def escapes : List (UInt16 × JsString) :=
  [(0x26, js "&amp;"), (ltUnit, js "&lt;"), (gtUnit, js "&gt;"), (0x22, js "&quot;")]

def esc (s : JsString) : JsString := s.flatMap fun c => (escapes.lookup c).getD [c]

def isDigit (c : UInt16) : Bool := 0x30 ≤ c && c ≤ 0x39

/-- The characters of `\w`. -/
def isWord (c : UInt16) : Bool :=
  isDigit c || 0x41 ≤ c && c ≤ 0x5a || c = 0x5f || 0x61 ≤ c && c ≤ 0x7a

/-- The assertion `\b`, between a unit and the next one. -/
def boundary (before after : Option UInt16) : Bool := before.any isWord != after.any isWord

def verbs : List JsString := [js "poke", js "peek", js "chain", js "snap"]

/-- The match of `\b(poke|peek|chain|snap)\b` at this place, if there is one. -/
def verbAt (before : Option UInt16) (s : JsString) : Option JsString :=
  if boundary before s.head? then
    verbs.find? fun v => v.isPrefixOf s && boundary v.getLast? (s.drop v.length).head?
  else none

def highlight (m : JsString) : JsString :=
  js "<span class=\"v-" ++ m ++ js "\">" ++ m ++ js "</span>"

/-- The unit before is given, and the number counts the units of the last match that are still to
be skipped. -/
def colorVerbsFrom : ℕ → Option UInt16 → JsString → JsString
  | _, _, [] => []
  | n + 1, _, c :: s => colorVerbsFrom n (some c) s
  | 0, before, c :: s =>
    match verbAt before (c :: s) with
    | some v => highlight v ++ colorVerbsFrom (v.length - 1) (some c) s
    | none => c :: colorVerbsFrom 0 (some c) s

def colorVerbs (s : JsString) : JsString := colorVerbsFrom 0 none s

/-! ## Styles -/

/-- `ANSI_FG` -/
def ansiFg : List (ℕ × JsString) :=
  [(30, js "#6b6557"), (31, js "#e0654c"), (32, js "#8fb56a"), (33, js "#efc02a"),
    (34, js "#6f8fd0"), (35, js "#c98fd0"), (36, js "#6fc6c0"), (37, js "#f3ede1"),
    (90, js "#9a937f"), (91, js "#e0654c"), (92, js "#a6cf86"), (93, js "#f5d35e"),
    (94, js "#8aa6e0"), (95, js "#d6a6dd"), (96, js "#8fd6d0"), (97, js "#ffffff")]

structure Style where
  color : Option JsString := none
  bold : Bool := false
  dim : Bool := false

namespace Style

def declarations (cur : Style) : List JsString :=
  (cur.color.map fun c => js "color:" ++ c).toList ++
    (if cur.bold then [js "font-weight:700"] else []) ++ if cur.dim then [js "opacity:.65"] else []

/-- `open` -/
def openTag (cur : Style) : JsString :=
  if cur.declarations = [] then js "<span>"
  else js "<span style=\"" ++ (js ";").intercalate cur.declarations ++ js "\">"

def apply (cur : Style) (c : ℕ) : Style :=
  if c = 0 then {}
  else if c = 1 then { cur with bold := true }
  else if c = 2 then { cur with dim := true }
  else if c = 22 then { cur with bold := false, dim := false }
  else if c = 39 then { cur with color := none }
  else
    match ansiFg.lookup c with
    | some color => { cur with color := some color }
    | none => cur

end Style

/-! ## The loop over a line -/

/-- The characters of `[0-9;]`. -/
def isParameter (c : UInt16) : Bool := isDigit c || c = semicolonUnit

/-- `Number` of some digits. It rounds large numbers, but none of them to a code. -/
def number (s : JsString) : ℕ := s.foldl (fun n c => n * 10 + (c.toNat - 0x30)) 0

def codes (params : JsString) : List ℕ :=
  if params = [] then [0] else (params.splitOn semicolonUnit).map number

/-- The match of `\x1b\[([0-9;]*)m` at this place: its group, and what comes after it. -/
def sgrAt : JsString → Option (JsString × JsString)
  | c :: d :: s =>
    if c = escUnit ∧ d = bracketUnit then
      match s.span isParameter with
      | (params, e :: rest) => if e = mUnit then some (params, rest) else none
      | (_, []) => none
    else none
  | _ => none

/-- The next match, with what comes before it. -/
def exec : JsString → Option (JsString × JsString × JsString)
  | [] => none
  | c :: s =>
    match sgrAt (c :: s) with
    | some (params, rest) => some ([], params, rest)
    | none => (exec s).map fun (before, params, rest) => (c :: before, params, rest)

def emit (html : JsString) (cur : Style) (text : JsString) : JsString :=
  if text = [] then html
  else html ++ (cur.openTag ++ colorVerbs (esc text) ++ js "</span>")

/-- The variables of the loop; `rest` is the line from `last` on. -/
structure Scan where
  rest : JsString
  cur : Style := {}
  html : JsString := []

/-- One turn of the loop, if there is a match. -/
def Scan.next (s : Scan) : Option Scan :=
  (exec s.rest).map fun (before, params, rest) =>
    { rest, cur := (codes params).foldl Style.apply s.cur, html := emit s.html s.cur before }

def scan : ℕ → Scan → Option JsString
  | 0, _ => none
  | fuel + 1, s =>
    match s.next with
    | some s' => scan fuel s'
    | none => some (emit s.html s.cur s.rest)

/-- `ansiToHtml`, if it returns within the given number of turns. -/
def ansiToHtml (fuel : ℕ) (line : JsString) : Option JsString := scan fuel { rest := line }

end Web

end Nockd
