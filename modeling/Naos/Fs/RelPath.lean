/-
calculate_relative_path of fs/vfs/utils.c, which sysfs_ensure_symlink_at uses to turn the target of a sysfs symlink
into a path relative to the link.

find_common_prefix scans the two paths together up to their first difference and keeps the last slash both have at
the same place; the part of `from` after it has count_path_segments segments, of which all but the last (the link's
own name) become a `../`, and the part of `to` after it follows. A path is the C string it holds, as a list of
characters; the output buffer is the string it holds and the number of bytes from its start that have been written
(`RelBuf`), since every write of the function is a strcpy at the end of that string or a NUL inside it.

What the function is for is stated over components (`absPath`): the relative path from a link to a target is a `..`
for each directory of the link below the components both share, then the rest of the target (`relText`).

Results:
- `relative_path_overflows_and_refuses`: a buffer of one byte gets the two bytes of `.`, a buffer that just holds
  `..` is refused, and a `from` with a trailing slash sends the `../` loop round until the buffer is full.
-/
import Mathlib

namespace Naos.RelPath

/-! ## The model -/

def PATH_SEPARATOR : Char := '/'

def IS_SLASH (c : Char) : Bool := c == '/'

/-- normalize_slashes -/
def normalizeSlashes (path : List Char) : List Char := path.map fun c => if c = '\\' then PATH_SEPARATOR else c

/-- get_root_length -/
def getRootLength : List Char → Nat
  | [] => 0
  | c :: _ => if IS_SLASH c then 1 else 0

/-- the loop of find_common_prefix, at index `i` of both paths with `p1` and `p2` left of them: `strncmp` of the first
`i` bytes is the comparison of the prefixes -/
def findCommonPrefixLoop (path1 path2 : List Char) : List Char → List Char → Nat → Option Nat → Option Nat
  | c1 :: p1, c2 :: p2, i, lastSlash =>
    if IS_SLASH c1 ∧ IS_SLASH c2 then
      findCommonPrefixLoop path1 path2 p1 p2 (i + 1) (if path1.take i = path2.take i then some i else lastSlash)
    else if c1 ≠ c2 then lastSlash
    else findCommonPrefixLoop path1 path2 p1 p2 (i + 1) lastSlash
  | _, _, _, lastSlash => lastSlash

/-- find_common_prefix -/
def findCommonPrefix (path1 path2 : List Char) : Nat :=
  let root1 := getRootLength path1
  let root2 := getRootLength path2
  if root1 ≠ root2 ∨ path1.take root1 ≠ path2.take root1 then 0
  else
    match findCommonPrefixLoop path1 path2 (path1.drop root1) (path2.drop root2) root1 none with
    | some lastSlash => lastSlash + 1
    | none => root1

/-- the loop of count_path_segments, `atStart` when the character before is a slash or there is none -/
def countPathSegmentsLoop : List Char → Bool → Nat
  | [], _ => 0
  | c :: p, atStart => (if !IS_SLASH c && atStart then 1 else 0) + countPathSegmentsLoop p (IS_SLASH c)

/-- count_path_segments -/
def countPathSegments (path : List Char) : Nat := countPathSegmentsLoop path true

/-- rel_status -/
inductive RelStatus
  | REL_SUCCESS
  | REL_ERROR_INVALID
  | REL_ERROR_NO_COMMON_PREFIX
  | REL_ERROR_MEMORY
  | REL_ERROR_NOT_ABSOLUTE
deriving Repr, DecidableEq

/-- the output buffer: the C string it holds, and how many bytes from its start have been written -/
structure RelBuf where
  text : List Char
  touched : Nat
deriving Repr, DecidableEq

/-- `strcpy(relative + pos, s)` -/
def RelBuf.strcpyAt (b : RelBuf) (pos : Nat) (s : List Char) : RelBuf :=
  ⟨b.text.take pos ++ s, max b.touched (pos + s.length + 1)⟩

/-- `relative[pos] = '\0'` -/
def RelBuf.terminateAt (b : RelBuf) (pos : Nat) : RelBuf :=
  ⟨b.text.take pos, max b.touched (pos + 1)⟩

/-- `n - 1` in size_t -/
def sizeDec (n : Nat) : Nat := (n + (2 ^ 64 - 1)) % 2 ^ 64

/-- the loop adding a `../` for each level to go up: `count` passes left, at `pos` -/
def upLoop (size : Nat) : Nat → Nat → RelBuf → Except RelBuf (Nat × RelBuf)
  | 0, pos, b => .ok (pos, b)
  | count + 1, pos, b =>
    if pos + 3 ≥ size then .error b
    else upLoop size count (pos + 3) (b.strcpyAt pos ['.', '.', '/'])

/-- the end of calculate_relative_path, once the `../` loop has stopped at `pos`: the rest of `to` after its
slashes, or else the cut of the last slash, or else `.` -/
def relTail (size pos : Nat) (b : RelBuf) (toPtr : List Char) : RelStatus × RelBuf :=
  if toPtr ≠ [] then
    if pos + toPtr.length ≥ size then (.REL_ERROR_MEMORY, b)
    else (.REL_SUCCESS, b.strcpyAt pos toPtr)
  -- the last `/` of the `../` is cut off
  else if pos > 0 then (.REL_SUCCESS, b.terminateAt (pos - 1))
  else (.REL_SUCCESS, b.strcpyAt 0 ['.'])

/-- calculate_relative_path, on the buffer `relative` of `size` bytes -/
def calculateRelativePath (relative : RelBuf) (fromPath toPath : List Char) (size : Nat) : RelStatus × RelBuf :=
  if size = 0 then (.REL_ERROR_INVALID, relative)
  else if getRootLength fromPath = 0 ∨ getRootLength toPath = 0 then (.REL_ERROR_NOT_ABSOLUTE, relative)
  else
    let fromNormalized := normalizeSlashes (fromPath.take 1023)
    let toNormalized := normalizeSlashes (toPath.take 1023)
    let commonLen := findCommonPrefix fromNormalized toNormalized
    if commonLen = 0 then (.REL_ERROR_NO_COMMON_PREFIX, relative)
    else
      let fromPtr := fromNormalized.drop commonLen
      let toPtr := toNormalized.drop commonLen
      let segmentsUp := countPathSegments fromPtr
      let b := relative.terminateAt 0
      match upLoop size (sizeDec segmentsUp) 0 b with
      | .error b => (.REL_ERROR_MEMORY, b)
      | .ok (pos, b) => relTail size pos b (toPtr.dropWhile (· = PATH_SEPARATOR))

/-! ## Paths of components

What calculate_relative_path is for, in terms of components: an absolute path lists its components, and the relative
path from a link to a target climbs out of the link's directories below the components both paths share. -/

section Components

/-- the absolute path of the components `cs` -/
def absPath (cs : List (List Char)) : List Char := '/' :: ['/'].intercalate cs

/-- the components that find_common_prefix keeps: those both paths share and both go on after -/
def commonDirs : List (List Char) → List (List Char) → List (List Char)
  | a :: cs₁, b :: cs₂ => if a = b ∧ cs₁ ≠ [] ∧ cs₂ ≠ [] then a :: commonDirs cs₁ cs₂ else []
  | _, _ => []

/-- the components of the relative path from a link at `cs₁` to `cs₂`: a `..` for each directory of the link below
the kept components, then the rest of the target -/
def relParts (cs₁ cs₂ : List (List Char)) : List (List Char) :=
  List.replicate (cs₁.length - (commonDirs cs₁ cs₂).length - 1) ['.', '.'] ++ cs₂.drop (commonDirs cs₁ cs₂).length

/-- that relative path, `.` when it has no component -/
def relText (cs₁ cs₂ : List (List Char)) : List Char :=
  if relParts cs₁ cs₂ = [] then ['.'] else ['/'].intercalate (relParts cs₁ cs₂)

end Components

/-! ## Where calculate_relative_path leaves its interface -/

/-- a link `/a` to `/` in a one-byte buffer gets the two bytes of `.`; a link `/a/b` to `/` in a three-byte buffer,
which holds `..` and its NUL, is refused; and a link `/a/` to `/a/b`, whose rest past the common prefix has no
segment, sends the `../` loop of `segments_up - 1` passes round until the buffer is full -/
theorem relative_path_overflows_and_refuses :
    calculateRelativePath ⟨[], 0⟩ (absPath [['a']]) (absPath []) 1 = (.REL_SUCCESS, ⟨['.'], 2⟩) ∧
      relText [['a'], ['b']] [] = ['.', '.'] ∧
      (calculateRelativePath ⟨[], 0⟩ (absPath [['a'], ['b']]) (absPath []) 3).1 = .REL_ERROR_MEMORY ∧
      (calculateRelativePath ⟨[], 0⟩ ['/', 'a', '/'] (absPath [['a'], ['b']]) 256).1 = .REL_ERROR_MEMORY := by
  decide

end Naos.RelPath
