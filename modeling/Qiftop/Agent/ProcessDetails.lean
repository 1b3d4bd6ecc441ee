import Qiftop.Agent.Config
import Qiftop.Backend.ProcStat

/-!
# Agent — the details of a process

`GetProcessDetails` of `agent/ConnectionsService.cpp`, with `readProcessDetails` of
`backend/linux/ProcDetails.cpp` and the `[process_details]` section of `agent/Config.cpp`.  The agent reads
what its caller may not: the command line, the executable and the directory of other users' processes.  A
pid can go to another process between any two of its reads.

* `readProcessDetails_one`: valid details are all of one process.
* `getProcessDetails_same`: a caller to whom the process does not belong, and whom the administrator has not
  let in, gets the same answer whatever these files hold.
* `getProcessDetails_owned`: what such a caller does get is of a process of its own.
-/

namespace Qiftop.Agent
open Qt Backend

/-! ### Reading -/

/-- What is found in `/proc/<pid>` at a moment.  A file that cannot be opened is none. -/
structure ProcDir where
  stat : Option QByteArray := none
  status : Option QByteArray := none
  cmdline : Option QByteArray := none
  exe : QString := []
  cwd : QString := []

def readStartTimeJiffies (dir : ProcDir) : UInt64 :=
  dir.stat.elim 0 fun data => startTimeJiffies (data.take 4096)

/-- `QByteArray::toUInt`: 0 where it fails. -/
def toUInt (s : QByteArray) : UInt32 :=
  match toULongLong s with
  | some n => if n.toNat < 2 ^ 32 then UInt32.ofNat n.toNat else 0
  | none => 0

/-- `Name:` and `Uid:`. -/
def nameField : QByteArray := [78, 97, 109, 101, 58]
def uidField : QByteArray := [85, 105, 100, 58]

section Reading
variable (fromUtf8 : QByteArray → QString)

/-- A line of the status file. -/
def readStatusLine (found : QString × UInt32) (line : QByteArray) : QString × UInt32 :=
  if nameField.isPrefixOf line then (fromUtf8 (trimmedBytes (line.drop 5)), found.2)
  else if uidField.isPrefixOf line then
    match (simplified (line.drop 4)).splitOn space with
    | [] => found
    | part :: _ => (found.1, toUInt part)
  else found

/-- The name and the user of a process. -/
def readStatusComm (dir : ProcDir) : QString × UInt32 :=
  dir.status.elim ([], 0) fun data => ((data.take 8192).splitOn lf).foldl (readStatusLine fromUtf8) ([], 0)

/-- The arguments with spaces between them. -/
def readCmdline (dir : ProcDir) : QString :=
  dir.cmdline.elim [] fun data =>
    trimmed (fromUtf8 ((data.take 8192).map fun b => if b = 0 then space else b))

structure ProcessDetails where
  pid : Int32 := 0
  uid : UInt32 := 0
  comm : QString := []
  exe : QString := []
  cmdline : QString := []
  cwd : QString := []
  startTimeJiffies : UInt64 := 0
  valid : Bool := false
  deriving DecidableEq, Repr

/-- `dir k` is what the read numbered `k` finds: the first is that of the start time, the last too. -/
def readProcessDetails (pid : Int32) (dir : ℕ → ProcDir) : ProcessDetails :=
  if pid ≤ 0 then {}
  else
    let startBefore := readStartTimeJiffies (dir 0)
    if startBefore = 0 then {}
    else
      let (comm, uid) := readStatusComm fromUtf8 (dir 1)
      if comm.isEmpty then {}
      else
        let cmdline := readCmdline fromUtf8 (dir 2)
        let exe := (dir 3).exe
        let cwd := (dir 4).cwd
        if readStartTimeJiffies (dir 5) ≠ startBefore then {}
        else { pid, uid, comm, cmdline, exe, cwd, startTimeJiffies := startBefore, valid := true }

/-- What valid details are made of. -/
structure ReadFrom (pid : Int32) (dir : ℕ → ProcDir) (d : ProcessDetails) : Prop where
  started : readStartTimeJiffies (dir 0) ≠ 0
  same : readStartTimeJiffies (dir 5) = readStartTimeJiffies (dir 0)
  eq : d = {
    pid, uid := (readStatusComm fromUtf8 (dir 1)).2, comm := (readStatusComm fromUtf8 (dir 1)).1
    cmdline := readCmdline fromUtf8 (dir 2), exe := (dir 3).exe, cwd := (dir 4).cwd
    startTimeJiffies := readStartTimeJiffies (dir 0), valid := true }

theorem readProcessDetails_cases (pid : Int32) (dir : ℕ → ProcDir) :
    readProcessDetails fromUtf8 pid dir = {} ∨
      ReadFrom fromUtf8 pid dir (readProcessDetails fromUtf8 pid dir) := by
  unfold readProcessDetails
  dsimp only
  split
  · exact .inl rfl
  · split
    · exact .inl rfl
    · next hstarted =>
        split
        · exact .inl rfl
        · split
          · exact .inl rfl
          · next hsame => exact .inr ⟨hstarted, not_not.mp hsame, rfl⟩

/-- What is not read off the arguments, the executable and the directory. -/
def ProcessDetails.common (d : ProcessDetails) : ProcessDetails := { d with exe := [], cmdline := [], cwd := [] }

theorem readProcessDetails_common {dir dir' : ℕ → ProcDir} (hstat : ∀ k, (dir' k).stat = (dir k).stat)
    (hstatus : ∀ k, (dir' k).status = (dir k).status) (pid : Int32) :
    (readProcessDetails fromUtf8 pid dir').common = (readProcessDetails fromUtf8 pid dir).common := by
  have hstart : ∀ k, readStartTimeJiffies (dir' k) = readStartTimeJiffies (dir k) := by
    intro k
    rw [readStartTimeJiffies, hstat, readStartTimeJiffies]
  have hcomm : readStatusComm fromUtf8 (dir' 1) = readStatusComm fromUtf8 (dir 1) := by
    rw [readStatusComm, hstatus, readStatusComm]
  unfold readProcessDetails
  dsimp only
  rw [hstart, hstart, hcomm]
  split
  · rfl
  · split
    · rfl
    · split
      · rfl
      · split <;> rfl

end Reading

/-! ### Other processes -/

section Processes
variable {P : Type}

/-- Who has the pid at each read.  A pid that has the same start time at two reads had the same process in
between. -/
structure Occupied (who : ℕ → Option P) (dir : ℕ → ProcDir) : Prop where
  someone : ∀ k, readStartTimeJiffies (dir k) ≠ 0 → (who k).isSome
  same : ∀ i j, i ≤ j → readStartTimeJiffies (dir i) ≠ 0 →
    readStartTimeJiffies (dir j) = readStartTimeJiffies (dir i) → ∀ k, i ≤ k → k ≤ j → who k = who i

/-- **Valid details are of one process**, which had the pid at all reads. -/
theorem readProcessDetails_one {fromUtf8 : QByteArray → QString} {who : ℕ → Option P} {dir : ℕ → ProcDir}
    (hwho : Occupied who dir) {pid : Int32} (hvalid : (readProcessDetails fromUtf8 pid dir).valid = true) :
    ∃ p, ∀ k ≤ 5, who k = some p := by
  rcases readProcessDetails_cases fromUtf8 pid dir with hnone | hread
  · rw [hnone] at hvalid
    cases hvalid
  · obtain ⟨p, hp⟩ := Option.isSome_iff_exists.mp (hwho.someone 0 hread.started)
    refine ⟨p, fun k hk => ?_⟩
    rw [hwho.same 0 5 (Nat.zero_le 5) hread.started hread.same k (Nat.zero_le k) hk, hp]

end Processes

/-! ### The policy -/

inductive Disclosure where
  | Owner | Permissive | Restricted
  deriving DecidableEq, Repr

structure ProcessDetailsPolicy where
  mode : Disclosure := .Owner
  allowUsers : List QString := []
  allowGroups : List QString := []
  deriving DecidableEq, Repr

/-- The names of a list, however they are separated. -/
def splitList (ini : Ini) (key : String) : List QString :=
  let names := ((ini key).elim [] IniValue.toStringList).flatMap fun tok =>
    ((tok.splitOnP fun c => c = ',' || (c.toNat < 128 && isAsciiSpace (UInt8.ofNat c.toNat))).filter
      fun p => !p.isEmpty).map trimmed
  names.eraseDups

/-- The word of a mode. -/
def disclosureOf (mode : QString) : Disclosure :=
  if mode = "owner".toList then .Owner
  else if mode = "permissive".toList ∨ mode = "all".toList then .Permissive
  else if mode = "restricted".toList ∨ mode = "users".toList then .Restricted
  else .Owner

def loadProcessDetailsPolicy (file : Option Ini) : ProcessDetailsPolicy :=
  match file with
  | none => {}
  | some ini =>
      let mode := Qt.toLower (trimmed ((ini "process_details/disclosure").elim "owner".toList
        IniValue.toString))
      { mode := disclosureOf mode
        allowUsers := splitList ini "process_details/allow_users"
        allowGroups := splitList ini "process_details/allow_groups" }

/-- Who calls: the agent itself, or a peer on the bus with the user the bus gives for it, if it does. -/
inductive Caller where
  | inProcess
  | bus (uid : Option UInt32)

/-- What the system says about users. -/
structure Accounts where
  userNameForUid : UInt32 → QString
  userInGroup : UInt32 → QString → Bool
  sameName : QString → QString → Bool

def callerMaySeeProcessFields (policy : ProcessDetailsPolicy) (accounts : Accounts) (caller : Caller)
    (targetUid : UInt32) : Bool :=
  if policy.mode = .Permissive then true
  else
    match caller with
    | .inProcess => true
    | .bus none => false
    | .bus (some uid) =>
        if uid = 0 ∨ uid = targetUid then true
        else if policy.mode = .Restricted then
          let name := accounts.userNameForUid uid
          (!name.isEmpty && policy.allowUsers.any (accounts.sameName name)) ||
            policy.allowGroups.any (accounts.userInGroup uid)
        else false

/-! ### The reply -/

structure ProcessDetailsDto where
  pid : UInt32 := 0
  uid : UInt32 := 0
  comm : QString := []
  exe : QString := []
  cmdline : QString := []
  cwd : QString := []
  startTimeJiffies : UInt64 := 0
  deriving DecidableEq, Repr

section Reply
variable (fromUtf8 : QByteArray → QString) (policy : ProcessDetailsPolicy) (accounts : Accounts)

def GetProcessDetails (caller : Caller) (pid : UInt32) (dir : ℕ → ProcDir) : ProcessDetailsDto :=
  if pid = 0 ∨ pid > 2147483647 then {}
  else
    let d := readProcessDetails fromUtf8 pid.toInt32 dir
    if !d.valid then {}
    else
      let out : ProcessDetailsDto :=
        { pid := d.pid.toUInt32, uid := d.uid, comm := d.comm, startTimeJiffies := d.startTimeJiffies }
      if callerMaySeeProcessFields policy accounts caller d.uid then
        { out with exe := d.exe, cmdline := d.cmdline, cwd := d.cwd }
      else out

/-! ### Who is let in -/

/-- The agent itself, root, or anyone the administrator has let in. -/
def Trusted : Caller → Bool
  | .inProcess => true
  | .bus none => decide (policy.mode = .Permissive)
  | .bus (some uid) =>
      decide (policy.mode = .Permissive ∨ uid = 0) ||
        (decide (policy.mode = .Restricted) &&
          ((!(accounts.userNameForUid uid).isEmpty &&
              policy.allowUsers.any (accounts.sameName (accounts.userNameForUid uid))) ||
            policy.allowGroups.any (accounts.userInGroup uid)))

/-- The fields are for those who are let in, and for the user of the process. -/
theorem callerMaySee_iff (caller : Caller) (targetUid : UInt32) :
    callerMaySeeProcessFields policy accounts caller targetUid = true ↔
      Trusted policy accounts caller = true ∨ caller = .bus (some targetUid) := by
  unfold callerMaySeeProcessFields Trusted
  cases hmode : policy.mode with
  | Permissive =>
      cases caller with
      | inProcess => simp
      | bus uid => cases uid <;> simp
  | Owner =>
      cases caller with
      | inProcess => simp
      | bus uid => cases uid <;> simp
  | Restricted =>
      cases caller with
      | inProcess => simp
      | bus uid =>
          cases uid with
          | none => simp
          | some uid =>
              by_cases hroot : uid = 0
              · simp [hroot]
              · by_cases howner : uid = targetUid
                · simp [howner]
                · simp [hroot, howner]

/-! ### What is disclosed -/

section Disclosed
variable {dir dir' : ℕ → ProcDir} {caller : Caller}

/-- The reply without the fields that are not for everyone. -/
def ProcessDetails.bulk (d : ProcessDetails) : ProcessDetailsDto :=
  if !d.valid then {}
  else { pid := d.pid.toUInt32, uid := d.uid, comm := d.comm, startTimeJiffies := d.startTimeJiffies }

theorem getProcessDetails_hidden
    (hsee : callerMaySeeProcessFields policy accounts caller (readStatusComm fromUtf8 (dir 1)).2 = false)
    (pid : UInt32) :
    GetProcessDetails fromUtf8 policy accounts caller pid dir =
      if pid = 0 ∨ pid > 2147483647 then {} else (readProcessDetails fromUtf8 pid.toInt32 dir).bulk := by
  have huid : (readProcessDetails fromUtf8 pid.toInt32 dir).valid = true →
      (readProcessDetails fromUtf8 pid.toInt32 dir).uid = (readStatusComm fromUtf8 (dir 1)).2 := by
    rcases readProcessDetails_cases fromUtf8 pid.toInt32 dir with hnone | hread
    · rw [hnone]
      exact nofun
    · rw [hread.eq]
      exact fun _ => rfl
  unfold GetProcessDetails ProcessDetails.bulk
  dsimp only
  split
  · rfl
  · split
    · rfl
    · next hvalid => rw [huid (by simpa using hvalid), if_neg (by simp [hsee])]

/-- **Nothing is learned of other users' processes**: who is not let in and is not the user of the process
gets an answer that does not depend on what its command line, its executable and its directory are. -/
theorem getProcessDetails_same (hcaller : Trusted policy accounts caller = false)
    (hother : caller ≠ .bus (some (readStatusComm fromUtf8 (dir 1)).2))
    (hstat : ∀ k, (dir' k).stat = (dir k).stat) (hstatus : ∀ k, (dir' k).status = (dir k).status)
    (pid : UInt32) :
    GetProcessDetails fromUtf8 policy accounts caller pid dir' =
      GetProcessDetails fromUtf8 policy accounts caller pid dir := by
  have hcommon := readProcessDetails_common fromUtf8 hstat hstatus pid.toInt32
  have hsee : callerMaySeeProcessFields policy accounts caller (readStatusComm fromUtf8 (dir 1)).2 =
      false := by
    rw [Bool.eq_false_iff, ne_eq, callerMaySee_iff, hcaller]
    simpa using hother
  have hsee' : callerMaySeeProcessFields policy accounts caller (readStatusComm fromUtf8 (dir' 1)).2 =
      false := by
    rwa [readStatusComm, hstatus]
  have hbulk : ∀ d : ProcessDetails, d.common.bulk = d.bulk := fun d => rfl
  rw [getProcessDetails_hidden fromUtf8 policy accounts hsee,
    getProcessDetails_hidden fromUtf8 policy accounts hsee', ← hbulk, hcommon, hbulk]

/-- **What is disclosed is the caller's**: when such a caller is shown a command line, an executable or a
directory, they are of one process that had the pid at all reads and whose user is the caller. -/
theorem getProcessDetails_owned {P : Type} {who : ℕ → Option P} (hwho : Occupied who dir)
    (hcaller : Trusted policy accounts caller = false) {pid : UInt32}
    (hshown : let r := GetProcessDetails fromUtf8 policy accounts caller pid dir
      r.exe ≠ [] ∨ r.cmdline ≠ [] ∨ r.cwd ≠ []) :
    caller = .bus (some (readStatusComm fromUtf8 (dir 1)).2) ∧ ∃ p, ∀ k ≤ 5, who k = some p := by
  have hblank : ∀ d : ProcessDetails, d.bulk.exe = [] ∧ d.bulk.cmdline = [] ∧ d.bulk.cwd = [] := by
    intro d
    unfold ProcessDetails.bulk
    split <;> exact ⟨rfl, rfl, rfl⟩
  constructor
  · by_contra hother
    have hsee : callerMaySeeProcessFields policy accounts caller (readStatusComm fromUtf8 (dir 1)).2 =
        false := by
      rw [Bool.eq_false_iff, ne_eq, callerMaySee_iff, hcaller]
      simpa using hother
    obtain ⟨hexe, hcmdline, hcwd⟩ := hblank (readProcessDetails fromUtf8 pid.toInt32 dir)
    rw [getProcessDetails_hidden fromUtf8 policy accounts hsee] at hshown
    split at hshown
    · simp at hshown
    · simp [hexe, hcmdline, hcwd] at hshown
  · have hvalid : (readProcessDetails fromUtf8 pid.toInt32 dir).valid = true := by
      by_contra hnone
      have hempty : GetProcessDetails fromUtf8 policy accounts caller pid dir = {} := by
        unfold GetProcessDetails
        dsimp only
        rw [if_pos (c := (!(readProcessDetails fromUtf8 pid.toInt32 dir).valid) = true) (by simpa using hnone),
          ite_self]
      rw [hempty] at hshown
      simp at hshown
    exact readProcessDetails_one hwho hvalid

end Disclosed

end Reply

/-! ### An example -/

/-- A shell of the user 1000 that was started with these arguments. -/
def shellDir (cmdline : QByteArray) : ProcDir where
  stat := some (toUtf8 "7 (sh) S 1 7 7 0 -1 0 0 0 0 0 0 0 0 0 20 0 1 0 4242 0".toList)
  status := some (toUtf8 "Name:\tsh\nUid:\t1000\t1000\t1000\t1000\n".toList)
  cmdline := some cmdline
  exe := "/bin/sh".toList

def strangers : Accounts := ⟨fun _ => [], fun _ _ => false, fun a b => a == b⟩

/-- The user 1001 is neither let in nor the user of the shell. -/
theorem stranger_untrusted :
    Trusted (loadProcessDetailsPolicy none) strangers (.bus (some 1001)) = false ∧
      Caller.bus (some 1001) ≠
        .bus (some (readStatusComm (fun b => (fromUtf8 b).getD []) (shellDir [115, 104])).2) := by
  refine ⟨by decide, fun heq => ?_⟩
  have huid : (readStatusComm (fun b => (fromUtf8 b).getD []) (shellDir [115, 104])).2 = 1000 := by
    decide +kernel
  rw [huid] at heq
  simp only [Caller.bus.injEq, Option.some.injEq] at heq
  exact absurd heq (by decide)

/-- The user 1001 gets the same answer about `sh -c x` and about `sh`. -/
theorem shell_same :
    GetProcessDetails (fun b => (fromUtf8 b).getD []) (loadProcessDetailsPolicy none) strangers
        (.bus (some 1001)) 7 (fun _ => shellDir [115, 104, 0, 45, 99, 0, 120]) =
      GetProcessDetails (fun b => (fromUtf8 b).getD []) (loadProcessDetailsPolicy none) strangers
        (.bus (some 1001)) 7 (fun _ => shellDir [115, 104]) :=
  getProcessDetails_same _ _ _ stranger_untrusted.1 stranger_untrusted.2 (fun _ => rfl) (fun _ => rfl) 7

/-- The user 1000 is shown the executable, of a process of theirs. -/
theorem shell_owned :
    (GetProcessDetails (fun b => (fromUtf8 b).getD []) (loadProcessDetailsPolicy none) strangers
        (.bus (some 1000)) 7 (fun _ => shellDir [115, 104])).exe ≠ [] ∧
      Caller.bus (some 1000) =
        .bus (some (readStatusComm (fun b => (fromUtf8 b).getD []) (shellDir [115, 104])).2) := by
  have hcaller : Trusted (loadProcessDetailsPolicy none) strangers (.bus (some 1000)) = false := by decide
  have hshown : (GetProcessDetails (fun b => (fromUtf8 b).getD []) (loadProcessDetailsPolicy none) strangers
      (.bus (some 1000)) 7 (fun _ => shellDir [115, 104])).exe ≠ [] := by decide +kernel
  have hwho : Occupied (fun _ : ℕ => some ()) fun _ => shellDir [115, 104] :=
    ⟨fun _ _ => rfl, fun _ _ _ _ _ _ _ _ => rfl⟩
  exact ⟨hshown, (getProcessDetails_owned (fun b => (fromUtf8 b).getD []) (loadProcessDetailsPolicy none)
    strangers hwho hcaller (.inl hshown)).1⟩

end Qiftop.Agent
