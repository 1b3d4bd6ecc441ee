import Qiftop.Backend.Connection
import Qiftop.Lib.Regex

/-!
# Backend — cgroup paths

`backend/linux/CgroupParse.h`: the containers a process is nested in, read off its cgroup path.  The
segments are walked from the root, each against a list of patterns; a bare 64-digit segment is the leaf of
the pod named just before it.  Where the walk finds nothing, patterns over the whole path are tried, and a
systemd unit is the last resort.  At most the innermost sixteen entries are kept.

The patterns are the source's, under its names.  The warning about a path cut short is a log line and is
left out.
-/

namespace Qiftop.Backend.Cgroup
open Qt Lib Lib.Pattern

/-! ### The file -/

/-- The controllers and the path of a line. -/
def cgroupLine (line : QString) : Option (QString × QString) :=
  match line.dropWhile (· ≠ ':') with
  | [] => none
  | _ :: rest =>
      match rest.dropWhile (· ≠ ':') with
      | [] => none
      | _ :: path => some (rest.takeWhile (· ≠ ':'), path)

/-- The first unified line, or the first path of another. -/
def extractFrom (v1Fallback : QString) : List QString → QString
  | [] => v1Fallback
  | line :: lines =>
      match cgroupLine line with
      | none => extractFrom v1Fallback lines
      | some (controllers, path) =>
          if controllers.isEmpty then path
          else extractFrom (if v1Fallback.isEmpty then path else v1Fallback) lines

def extractPath (contents : QString) : QString :=
  extractFrom [] ((contents.splitOn '\n').filter fun line => !line.isEmpty)

/-! ### The patterns -/

/-- `[0-9a-f]` -/
def isHexDigit (c : Char) : Bool := ('0' ≤ c && c ≤ '9') || ('a' ≤ c && c ≤ 'f')

/-- `[0-9a-fA-F_-]` -/
def isUidChar (c : Char) : Bool := isHexDigit c || ('A' ≤ c && c ≤ 'F') || c == '_' || c == '-'

/-- `\s` -/
def isPatternSpace (c : Char) : Bool := c ∈ [' ', '\t', '\n', '\x0b', '\x0c', '\r']

/-- `[A-Za-z0-9@_.\-]` -/
def isUnitChar (c : Char) : Bool :=
  ('A' ≤ c && c ≤ 'Z') || ('a' ≤ c && c ≤ 'z') || ('0' ≤ c && c ≤ '9') || c ∈ ['@', '_', '.', '-']

/-- `^word([0-9a-f]{64})\.scope$` -/
def scopeOf (word : QString) : Pattern :=
  seq first (lit word (seq (group (exactly isHexDigit 64)) (lit ".scope".toList last)))

def rxCriContainerd : Pattern := scopeOf "cri-containerd-".toList

def rxCrio : Pattern := scopeOf "crio-".toList

def rxDockerScope : Pattern := scopeOf "docker-".toList

def rxPodman : Pattern := scopeOf "libpod-".toList

/-- `^libpod-([0-9a-f]{64})$` -/
def rxPodmanCgfs : Pattern :=
  seq first (lit "libpod-".toList (seq (group (exactly isHexDigit 64)) last))

/-- `^lxd-([^/\s.]+)\.service$` -/
def rxLxd : Pattern :=
  seq first (lit "lxd-".toList (seq
    (group (many (fun c => !(c == '/' || isPatternSpace c || c == '.')) 1 none))
    (lit ".service".toList last)))

/-- `^machine-(.+)\.scope$` -/
def rxNspawnScope : Pattern :=
  seq first (lit "machine-".toList (seq (group (many (· != '\n') 1 none)) (lit ".scope".toList last)))

/-- `^systemd-nspawn@(.+)\.service$` -/
def rxNspawnService : Pattern :=
  seq first (lit "systemd-nspawn@".toList (seq (group (many (· != '\n') 1 none))
    (lit ".service".toList last)))

/-- `pod([0-9a-fA-F_-]{32,72})` -/
def rxKubepodsPod : Pattern := lit "pod".toList (group (many isUidChar 32 (some 72)))

/-- `^pod([0-9a-fA-F_-]{32,72})$` -/
def rxKubepodsPodCgfs : Pattern :=
  seq first (lit "pod".toList (seq (group (many isUidChar 32 (some 72))) last))

/-- `^([0-9a-f]{64})$` -/
def rxBareHex64 : Pattern := seq first (seq (group (exactly isHexDigit 64)) last)

/-- `/docker/([0-9a-f]{64})(?:/|$)` -/
def rxDockerLegacy : Pattern :=
  lit "/docker/".toList (seq (group (exactly isHexDigit 64)) (alt (char (· == '/')) last))

/-- `/lxc(?:\.payload)?[./]([^/\s]+)` -/
def rxLxc : Pattern :=
  lit "/lxc".toList (seq (opt (lit ".payload".toList empty)) (seq (char (· ∈ ['.', '/']))
    (group (many (fun c => !(c == '/' || isPatternSpace c)) 1 none))))

/-- `^([A-Za-z0-9@_.\-]+\.(?:service|socket|mount))$` -/
def rxSystemdUnit : Pattern :=
  seq first (seq (group (seq (many isUnitChar 1 none) (lit ['.']
    (alt (lit "service".toList empty) (alt (lit "socket".toList empty) (lit "mount".toList empty))))))
    last)

/-! ### Segments -/

/-- A pattern for one segment, the runtime it stands for, and whether the id is a hexadecimal one that is
shown cut to twelve digits. -/
structure SegmentRule where
  rx : Pattern
  runtime : QString
  short : Bool

/-- What the rules before the pods' recognise. -/
def namedRules : List SegmentRule :=
  [⟨rxCriContainerd, "containerd".toList, true⟩,
    ⟨rxCrio, "cri-o".toList, true⟩,
    ⟨rxDockerScope, "docker".toList, true⟩,
    ⟨rxPodman, "podman".toList, true⟩,
    ⟨rxPodmanCgfs, "podman".toList, true⟩,
    ⟨rxLxd, "lxd".toList, false⟩,
    ⟨rxNspawnScope, "nspawn".toList, false⟩,
    ⟨rxNspawnService, "nspawn".toList, false⟩]

def podRules : List SegmentRule :=
  [⟨rxKubepodsPodCgfs, "kubernetes".toList, true⟩, ⟨rxKubepodsPod, "kubernetes".toList, true⟩]

/-- The id an entry shows. -/
def SegmentRule.idOf (rule : SegmentRule) (m : Match) : QString :=
  if rule.short then m.captured.take 12 else m.captured

def SegmentRule.classify (rule : SegmentRule) (seg : QString) : Option ContainerInfo :=
  (rule.rx.exec seg).map fun m => { runtime := rule.runtime, id := rule.idOf m }

/-- `classifySegment`: the first rule that matches. -/
def classifySegment (seg : QString) : Option ContainerInfo :=
  (namedRules ++ podRules).findSome? fun rule => rule.classify seg

inductive CgroupHint where
  | Auto | PreferCrio
  deriving DecidableEq, Repr

/-- The runtime of a pod's leaf, which the path does not tell. -/
def CgroupHint.leafRuntime : CgroupHint → QString
  | .Auto => "containerd".toList
  | .PreferCrio => "cri-o".toList

/-- `path.split('/', Qt::SkipEmptyParts)` -/
def segments (path : QString) : List QString := (path.splitOn '/').filter fun seg => !seg.isEmpty

/-- The walk from the root to the leaf. -/
def walkSegments (hint : CgroupHint) : (prevRuntime : QString) → List QString → List ContainerInfo
  | _, [] => []
  | prevRuntime, seg :: segs =>
      match classifySegment seg with
      | some ci => ci :: walkSegments hint ci.runtime segs
      | none =>
          if prevRuntime = "kubernetes".toList then
            match rxBareHex64.exec seg with
            | some m =>
                { runtime := hint.leafRuntime, id := m.captured.take 12 } ::
                  walkSegments hint hint.leafRuntime segs
            | none => walkSegments hint [] segs
          -- a segment that is none of these parts a pod from a later leaf
          else walkSegments hint [] segs

/-! ### The whole path -/

def dockerLegacy (path : QString) : List ContainerInfo :=
  (rxDockerLegacy.globalMatch path).map fun m =>
    { runtime := "docker".toList, id := m.captured.take 12 }

def lxcOf (path : QString) : List ContainerInfo :=
  ((rxLxc.exec path).map fun m => { runtime := "lxc".toList, id := m.captured : ContainerInfo }).toList

/-- The innermost systemd unit, unless the path is a user's. -/
def systemdUnit (segs : List QString) : List ContainerInfo :=
  if segs.contains "user.slice".toList then []
  else
    (segs.reverse.findSome? fun seg => (rxSystemdUnit.exec seg).map fun m =>
      { runtime := "systemd".toList, id := "unit:".toList ++ m.captured : ContainerInfo }).toList

/-- The chain, or another where it is empty. -/
def orIfEmpty (chain other : List ContainerInfo) : List ContainerInfo :=
  if chain.isEmpty then other else chain

/-- The chain before it is cut. -/
def uncappedChain (path : QString) (hint : CgroupHint) : List ContainerInfo :=
  if path = [] ∨ path = "/".toList ∨ path = "/init.scope".toList then []
  else
    let chain := orIfEmpty (walkSegments hint [] (segments path)) (dockerLegacy path)
    let chain := orIfEmpty chain (lxcOf path)
    orIfEmpty chain (systemdUnit (segments path))

def kMaxContainerChainDepth : ℕ := 16

/-- The innermost of a list. -/
def innermost {α : Type} (chain : List α) : List α := chain.drop (chain.length - kMaxContainerChainDepth)

def classifyPathChain (path : QString) (hint : CgroupHint := .Auto) : List ContainerInfo :=
  if (uncappedChain path hint).length > kMaxContainerChainDepth then innermost (uncappedChain path hint)
  else uncappedChain path hint

def classifyPath (path : QString) (hint : CgroupHint := .Auto) : Option ContainerInfo :=
  (classifyPathChain path hint).getLast?

def classifyProcCgroupChain (contents : QString) (hint : CgroupHint := .Auto) : List ContainerInfo :=
  classifyPathChain (extractPath contents) hint

def classifyProcCgroup (contents : QString) (hint : CgroupHint := .Auto) : Option ContainerInfo :=
  classifyPath (extractPath contents) hint

theorem classifyPathChain_eq (path : QString) (hint : CgroupHint) :
    classifyPathChain path hint = innermost (uncappedChain path hint) := by
  rw [classifyPathChain]
  split
  · rfl
  · next hle => rw [innermost, Nat.sub_eq_zero_of_le (not_lt.mp hle), List.drop_zero]

end Qiftop.Backend.Cgroup
