import Mathlib.Data.List.Basic
import Nockd.Config.Paths
import Nockd.Crates

/-!
# Icons

`resolveIcon` turns an icon setting into a `data:` URI: an inline URI passes
through, a path is read relative to the manifest's directory and encoded. The
daemon checks URIs with `validateIcon`, which decodes them.
-/

namespace Nockd

namespace Config

/-- The code points that `str::trim` strips. -/
def isWhiteSpace (c : Char) : Bool :=
  let n := c.toNat
  (9 ≤ n && n ≤ 13) || n == 0x20 || n == 0x85 || n == 0xa0 || n == 0x1680 ||
    (0x2000 ≤ n && n ≤ 0x200a) || n == 0x2028 || n == 0x2029 || n == 0x202f ||
    n == 0x205f || n == 0x3000

def trim (s : List Char) : List Char :=
  ((s.dropWhile isWhiteSpace).reverse.dropWhile isWhiteSpace).reverse

def stripPrefix (s pat : List Char) : Option (List Char) :=
  if pat.isPrefixOf s then some (s.drop pat.length) else none

def stripSuffix (s pat : List Char) : Option (List Char) :=
  if pat.isSuffixOf s then some (s.take (s.length - pat.length)) else none

/-- `str::split_once` at a character. -/
def splitOnce (s : List Char) (sep : Char) : Option (List Char × List Char) :=
  match s.span (· ≠ sep) with
  | (before, _ :: after) => some (before, after)
  | (_, []) => none

/-! ## Parents and extensions of paths -/

/-- A reversed path without the slashes and `.` components at its end. -/
def dropTail : List Char → List Char
  | '/' :: cs => dropTail cs
  | '.' :: '/' :: cs => dropTail cs
  | cs => cs

/-- `Path::parent`. -/
def parent (path : List Char) : Option (List Char) :=
  let path := dropTail path.reverse
  if path = [] then none
  else
    let dir := path.dropWhile (· ≠ '/')
    if dir = [] then some []
    else if dropTail dir = [] then some ['/']
    else some (dropTail dir).reverse

/-- `Path::extension`. -/
def extension (path : List Char) : Option (List Char) :=
  let name := (dropTail path.reverse).takeWhile (· ≠ '/')
  if name = ['.'] ∨ name = ['.', '.'] then none
  else
    match name.span (· ≠ '.') with
    | (ext, _ :: _ :: _) => some ext.reverse
    | _ => none

def mimeOf (ext : Option (List Char)) : Option String :=
  match ext.map fun e => String.ofList (e.map Char.toLower) with
  | some "png" => some "image/png"
  | some "jpg" => some "image/jpeg"
  | some "jpeg" => some "image/jpeg"
  | some "gif" => some "image/gif"
  | some "webp" => some "image/webp"
  | some "svg" => some "image/svg+xml"
  | some "ico" => some "image/x-icon"
  | _ => none

/-! ## Resolving and checking -/

variable (crates : Crates)

/-- A character of a text as `{:?}` writes it. -/
def debugChar (c : Char) : List Char :=
  if c = '"' ∨ c = '\\' then ['\\', c]
  else if c = '\t' then ['\\', 't']
  else if c = '\n' then ['\\', 'n']
  else if c = '\r' then ['\\', 'r']
  else if c.toNat = 0 then ['\\', '0']
  else if c.toNat < 0x20 ∨ c.toNat = 0x7f ∨ 0x7f < c.toNat ∧ crates.debugEscapes c then
    ['\\', 'u', Char.ofNat 0x7b] ++ Nat.toDigits 16 c.toNat ++ [Char.ofNat 0x7d]
  else [c]

/-- The text of an optional extension in an error (`{:?}`). -/
def debugExtension (ext : Option (List Char)) : String :=
  match ext with
  | some e => "Some(\"" ++ String.ofList ((e.map Char.toLower).flatMap (debugChar crates)) ++ "\")"
  | none => "None"

/-- `resolve_icon`; `files` reads a file of the machine it runs on. -/
def resolveIcon (files : List Char → Option Bytes) (baseDir : List Char) (icon : String) :
    Except String String :=
  let icon := trim icon.toList
  if "data:".toList.isPrefixOf icon then .ok (String.ofList icon)
  else
    let path := join baseDir icon
    match files path with
    | none => .error ("reading icon " ++ String.ofList path)
    | some bytes =>
      if maxIconBytes < bytes.length then
        .error ("icon " ++ String.ofList path ++ " is " ++ toString bytes.length ++
          " bytes; max is " ++ toString maxIconBytes ++
          " (use a smaller, favicon-sized image)")
      else
        match mimeOf (extension path) with
        | none =>
          .error ("unsupported icon type " ++ debugExtension crates (extension path) ++ " for " ++
            String.ofList path ++
            " (use png/jpg/gif/webp/svg/ico, or an inline data: URI)")
        | some mime => .ok ("data:" ++ mime ++ ";base64," ++ crates.base64Encode bytes)

/-- Media type and bytes of a base64 `data:` URI. -/
def decodeDataUri (uri : String) : Option (String × Bytes) := do
  let rest ← stripPrefix uri.toList "data:".toList
  let (header, data) ← splitOnce rest ','
  let header ← stripSuffix header ";base64".toList
  let mime := if header = [] then "application/octet-stream" else String.ofList header
  let bytes ← (crates.base64Decode (String.ofList (trim data))).toOption
  pure (mime, bytes)

/-- A client-supplied icon must be a base64 `data:` URI within the size cap. -/
def validateIcon (uri : String) : Except String Unit :=
  match decodeDataUri crates uri with
  | none => .error "icon must be a base64 data: URI"
  | some (_, bytes) =>
    if maxIconBytes < bytes.length then
      .error ("icon is " ++ toString bytes.length ++ " bytes; max is " ++
        toString maxIconBytes)
    else .ok ()

end Config

end Nockd
