import Transclude.Image.Basic
import Transclude.Run
import Transclude.Text.LowerCase
import Transclude.Tree.Lookup

/-! Embedding: a reference to a local file is replaced by one that carries the file's bytes, in
the base-64 alphabet and with the media type of the file. -/

namespace Transclude

namespace Base64

def alphabet : List Char :=
  "ABCDEFGHIJKLMNOPQRSTUVWXYZabcdefghijklmnopqrstuvwxyz0123456789+/".text

def digit (n : Nat) : Char := alphabet.getD (n % 64) '='

def encode : List UInt8 → Text
  | [] => []
  | [a] =>
    let n := a.toNat * 0x10
    [digit (n / 0x40), digit n, '=', '=']
  | [a, b] =>
    let n := (a.toNat * 0x100 + b.toNat) * 0x4
    [digit (n / 0x1000), digit (n / 0x40), digit n, '=']
  | a :: b :: c :: rest =>
    let n := (a.toNat * 0x100 + b.toNat) * 0x100 + c.toNat
    digit (n / 0x40000) :: digit (n / 0x1000) :: digit (n / 0x40) :: digit n :: encode rest

end Base64

namespace Image

def normalizeTarget (target : Text) : Text :=
  match target.trim with
  | '<' :: rest => if rest.getLast? = some '>' then Text.trim rest.dropLast else '<' :: rest
  | bare => bare

def externalMarks : List String := ["http://", "https://", "data:", "mailto:", "ftp://", "//"]

def isExternal (target : Text) : Bool :=
  target = [] || externalMarks.any fun mark => target.lower.startsWith mark.text

def mediaTypes : List (String × String) := [
    (".apng", "image/apng"), (".avif", "image/avif"), (".bmp", "image/bmp"),
    (".gif", "image/gif"), (".ico", "image/x-icon"), (".jpeg", "image/jpeg"),
    (".jpg", "image/jpeg"), (".png", "image/png"), (".svg", "image/svg+xml"),
    (".tif", "image/tiff"), (".tiff", "image/tiff"), (".webp", "image/webp")]

def mediaType (p : Path) : Text :=
  match mediaTypes.find? fun (extension, _) => p.extension.lower = extension.text with
  | some (_, mediaType) => mediaType.text
  | none => "application/octet-stream".text

def targetPath (base : Path) (target : Text) : Path := base.join (.ofText target)

def embed (i : Image) (p : Path) (bytes : List UInt8) : Text :=
  let title := (i.title?.map fun t => ' ' :: '"' :: t.text ++ ['"']).getD []
  "![".text ++ i.alt ++ "](data:".text ++ mediaType p ++ ";base64,".text ++ Base64.encode bytes
    ++ title ++ [')']

def replace (tree : Tree) (base : Path) (i : Image) : Run Text :=
  let target := normalizeTarget i.target
  if isExternal target then pure i.source
  else
    let p := targetPath base target
    match tree.resolve p with
    | .tooLong => .stop (.path (.nameTooLong p))
    | .found (.file bytes) => pure (i.embed p bytes)
    | .found .directory | .missing => pure i.source

def replaceChunks (tree : Tree) (base : Path) : List (Chunk Image) → Run Text
  | [] => pure []
  | .plain s :: rest => do
    let others ← replaceChunks tree base rest
    return s ++ others
  | .found i :: rest => do
    let s ← replace tree base i
    let others ← replaceChunks tree base rest
    return s ++ others

def embedAll (tree : Tree) (base : Path) (s : Text) : Run Text :=
  replaceChunks tree base (pattern.scan s)

end Image
end Transclude
