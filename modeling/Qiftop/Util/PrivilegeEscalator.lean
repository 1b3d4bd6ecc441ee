import Mathlib.Data.List.TakeWhile
import Qiftop.Lib.Shell
import Qiftop.Qt.Text

/-!
# Util — the command for kdesu

`runKdesu` of `util/PrivilegeEscalator.cpp`.  kdesu takes the command to run as root as one text, which
a shell takes apart again, so every word of it is put in single quotes.

* `quoted_eq_quote`: the quoting is that of `Lib.Shell`.
* `read_kdesuCommand`: the shell gets the program and its arguments back, and nothing in them has a
  meaning to it.
-/

namespace Qiftop.Util.PrivilegeEscalator
open Qt Lib

/-- One word of the command: `QStringLiteral("'%1'").arg(p.replace('\'', "'\\''"))`. -/
def quoted (p : QString) : QString :=
  arg "'%1'".toList (replaceChar p (Char.ofNat 39) "'\\''".toList)

/-- The text behind `-c`. -/
def kdesuCommand (program : QString) (args : List QString) : QString :=
  join ((program :: args).map quoted) ' '

/-- What is started and with which arguments, nothing where neither helper is installed.
`findHelper` answers the path of an installed helper or the empty text. -/
def runKdesu (findHelper : QString → QString) (program : QString) (args : List QString) :
    Option (QString × List QString) :=
  let path := findHelper "kdesu".toList
  let path := if path.isEmpty then findHelper "kdesudo".toList else path
  if path.isEmpty then none else some (path, ["-c".toList, kdesuCommand program args])

/-- An argument as the process started gets it: a C string ends at its first NUL. -/
def received (argument : QString) : QString := argument.takeWhile (· ≠ Char.ofNat 0)

/-! ### The words -/

theorem quoted_eq_quote (p : QString) : quoted p = Shell.quote p := rfl

theorem mem_join {c sep : Char} {parts : List QString} (h : c ∈ join parts sep) :
    c = sep ∨ ∃ p ∈ parts, c ∈ p := by
  induction parts with
  | nil => simp [join] at h
  | cons p parts ih =>
      cases parts with
      | nil => exact .inr ⟨p, by simp, by simpa [join] using h⟩
      | cons q parts =>
          rw [join, List.intercalate_cons_cons] at h
          simp only [List.mem_append, List.mem_singleton] at h
          rcases h with (hp | hsep) | hrest
          · exact .inr ⟨p, by simp, hp⟩
          · exact .inl hsep
          · rcases ih hrest with hsep | ⟨r, hr, hc⟩
            · exact .inl hsep
            · exact .inr ⟨r, by simp [hr], hc⟩

/-- Quoting a text adds only quotes and backslashes. -/
theorem mem_quote {c : Char} {text : QString} (h : c ∈ Shell.quote text) :
    c = Shell.squote ∨ c = Shell.backslash ∨ c ∈ text := by
  simp only [Shell.quote, List.cons_append, List.mem_cons, List.mem_append, List.mem_flatMap,
    List.not_mem_nil, or_false] at h
  rcases h with hopen | ⟨d, hd, hc⟩ | hclose
  · exact .inl hopen
  · split at hc
    · simp only [Shell.quoteEscape, List.mem_cons, List.not_mem_nil, or_false] at hc
      rcases hc with rfl | rfl | rfl | rfl <;> simp
    · rw [List.mem_singleton.mp hc]
      exact .inr (.inr hd)
  · exact .inl hclose

/-- The command of words without NUL reaches the helper whole. -/
theorem received_kdesuCommand {program : QString} {args : List QString}
    (h : ∀ p ∈ program :: args, Char.ofNat 0 ∉ p) :
    received (kdesuCommand program args) = kdesuCommand program args := by
  refine List.takeWhile_eq_self_iff.mpr fun c hc => ?_
  rw [decide_eq_true_iff]
  rintro rfl
  have hchars : Char.ofNat 0 ≠ ' ' ∧ Char.ofNat 0 ≠ Shell.squote ∧
      Char.ofNat 0 ≠ Shell.backslash := by decide
  rcases mem_join hc with hsep | ⟨q, hq, hc⟩
  · exact hchars.1 hsep
  · obtain ⟨p, hp, rfl⟩ := List.mem_map.mp hq
    rw [quoted_eq_quote] at hc
    rcases mem_quote hc with hquote | hbackslash | hmem
    · exact hchars.2.1 hquote
    · exact hchars.2.2 hbackslash
    · exact h p hp hmem

theorem forall₂_spells (parts : List QString) :
    List.Forall₂ Shell.Spells (parts.map quoted) (parts.map fun p => ⟨p, true⟩) := by
  rw [List.forall₂_map_left_iff, List.forall₂_map_right_iff]
  exact List.forall₂_same.mpr fun p _ => Shell.spells_quote p

/-- **Shell quoting is exact**: what runs gets `-c` and the command, and a shell reads the command it
gets as the program and the arguments, every character in quotes and none with a meaning of its own. -/
theorem read_kdesuCommand (findHelper : QString → QString) {program : QString}
    {args : List QString} (h : ∀ p ∈ program :: args, Char.ofNat 0 ∉ p) :
    (∀ launch ∈ runKdesu findHelper program args,
        launch.2 = ["-c".toList, kdesuCommand program args]) ∧
      Shell.read .unquoted none [] (received (kdesuCommand program args)) =
        .words ((program :: args).map fun p => ⟨p, true⟩) := by
  constructor
  · intro launch hlaunch
    simp only [runKdesu, Option.mem_def, Option.ite_none_left_eq_some] at hlaunch
    rw [← Option.some.inj hlaunch.2]
  · rw [received_kdesuCommand h]
    exact Shell.read_words (forall₂_spells (program :: args)) []

/-- An argument that would remove files, were it not quoted. -/
theorem hostile_argument_read :
    Shell.read .unquoted none []
        (received (kdesuCommand "qiftop".toList ["'; rm -rf $HOME #\n".toList, []])) =
      .words [⟨"qiftop".toList, true⟩, ⟨"'; rm -rf $HOME #\n".toList, true⟩, ⟨[], true⟩] := by
  have hnul : ∀ p ∈ "qiftop".toList :: ["'; rm -rf $HOME #\n".toList, []], Char.ofNat 0 ∉ p := by
    simp
  exact (read_kdesuCommand (fun name => "/usr/bin/".toList ++ name) hnul).2

/-- The same text without quotes stops at its separator. -/
example : Shell.read .unquoted none [] "qiftop x; rm -rf $HOME #".toList = .active ';' := by rfl

end Qiftop.Util.PrivilegeEscalator
