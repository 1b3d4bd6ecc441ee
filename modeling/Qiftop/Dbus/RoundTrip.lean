import Qiftop.Dbus.Marshal

/-!
# Dbus — there and back

What a connection keeps over the bus and what a structure of any peer keeps from one conversion to the
next.  `received` is the receiving side as a whole: a structure read off the bus and made a connection.

The chain of a connection runs from the outermost container to the innermost, which is the connection's
own.  Both cuts of the receiving side keep the front of an over-long chain: `received_leaf_iff`.
-/

namespace Qiftop.Dbus
open Qt Lib Backend

variable (parse : QString → QHostAddress)

/-! ### Conversions repeated -/

theorem pidFromWire_nonneg (pid : UInt32) : 0 ≤ pidFromWire pid := by
  unfold pidFromWire
  split
  · next hle =>
      have hnat : pid.toNat ≤ 2147483647 := UInt32.le_iff_toNat_le.mp hle
      have hmod : pid.toInt32.toInt = (pid.toNat : Int).bmod (2 ^ 32) :=
        BitVec.toInt_eq_toNat_bmod pid.toBitVec
      rw [Int32.le_iff_toInt_le, hmod, Int.bmod_def]
      change (0 : Int) ≤ _
      split <;> omega
  · exact Int32.le_refl 0

/-- **What is converted once stays.**  Reading an address's own text gives it back; then a connection
without process details and with a short chain arrives as it was sent, and whatever a peer sends, what
has been converted once is not changed by converting it again. -/
theorem conversions_settle (hparse : ∀ s, parse (parse s).toString = parse s) :
    (∀ c : Connection, ReadsBack parse c → 0 ≤ c.process.pid → c.process.exe = [] →
        c.process.cmdline = [] → c.containerChain.length ≤ kMaxContainerChainDepth →
        fromDto parse (toDto c) = c) ∧
      ∀ d : ConnectionDto,
        toDto (fromDto parse (toDto (fromDto parse d))) = toDto (fromDto parse d) := by
  have hback : ∀ c : Connection, ReadsBack parse c → 0 ≤ c.process.pid → c.process.exe = [] →
      c.process.cmdline = [] → c.containerChain.length ≤ kMaxContainerChainDepth →
      fromDto parse (toDto c) = c := by
    intro c hc hp hexe hcmdline hchain
    have hprocess : wireProcess c.process = c.process := by
      cases hprocess : c.process
      rw [hprocess] at hexe hcmdline
      subst hexe hcmdline
      rfl
    rw [fromDto_toDto parse hc hp, hprocess, List.take_of_length_le hchain]
  refine ⟨hback, fun d => congrArg toDto (hback _ ⟨hparse _, hparse _⟩ ?_ rfl rfl ?_)⟩
  · exact pidFromWire_nonneg d.pid
  · rw [fromDto, List.length_map, List.length_take]
    exact Nat.min_le_left _ _

/-- Reads a dotted address. -/
def parseDotted (text : QString) : QHostAddress :=
  if text ≠ [] ∧ text.all (fun c => c.isDigit || c == '.') then ⟨.IPv4Protocol, text⟩ else .null

/-- A web request of a browser in a container. -/
def webRequest : Connection where
  proto := .Tcp
  «local» := ⟨⟨.IPv4Protocol, "10.0.0.2".toList⟩, 40000⟩
  remote := ⟨⟨.IPv4Protocol, "10.0.0.9".toList⟩, 443⟩
  process := { pid := 7, comm := "browser".toList, uid := 1000 }
  container := ⟨"docker".toList, "3f2a".toList, []⟩
  containerChain := [⟨"docker".toList, "3f2a".toList, []⟩]

/-- The request arrives as it was sent; a structure with values out of range settles. -/
theorem webRequest_settles :
    fromDto parseDotted (toDto webRequest) = webRequest ∧
      toDto (fromDto parseDotted (toDto (fromDto parseDotted { proto := 99, pid := 4294967295 }))) =
        toDto (fromDto parseDotted { proto := 99, pid := 4294967295 }) := by
  have hparse : ∀ s, parseDotted (parseDotted s).toString = parseDotted s := by
    intro s
    by_cases hs : s ≠ [] ∧ s.all (fun c => c.isDigit || c == '.')
    · have hread : parseDotted s = ⟨.IPv4Protocol, s⟩ := if_pos hs
      rw [hread]
      exact hread
    · have hread : parseDotted s = .null := if_neg hs
      rw [hread]
      rfl
  obtain ⟨hback, hsettle⟩ := conversions_settle parseDotted hparse
  refine ⟨hback webRequest ⟨by decide, by decide⟩ (by decide) rfl rfl (by decide), ?_⟩
  exact hsettle { proto := 99, pid := 4294967295 }

/-! ### Over-long chains -/

/-- The receiving side: a structure off the bus, as a connection. -/
def received (parse : QString → QHostAddress) (v : Value) : Option Connection :=
  (ConnectionDto.read v).map (fromDto parse)

/-- The container of a connection on the wire. -/
def ConnectionDto.container (d : ConnectionDto) : ContainerInfoDto :=
  ⟨d.containerRuntime, d.containerId, d.containerName⟩

theorem ConnectionDto.read_write (d : ConnectionDto) : ConnectionDto.read d.write = some d.clampChain :=
  ConnectionDto.read_take d 10

/-- Cutting twice is cutting once. -/
theorem received_write (d : ConnectionDto) :
    received parse d.write = some (fromDto parse d) := by
  rw [received, ConnectionDto.read_write, Option.map_some, ConnectionDto.clampChain]
  split
  · rw [fromDto, fromDto, List.take_take, Nat.min_self]
  · rfl

theorem fromContainerDto_injective : Function.Injective fromContainerDto := by
  intro a b h
  rw [fromContainerDto, fromContainerDto, ContainerInfo.mk.injEq] at h
  obtain ⟨hruntime, hid, hname⟩ := h
  cases a
  cases b
  rw [ContainerInfoDto.mk.injEq]
  exact ⟨hruntime, hid, hname⟩

/-- The last entry of a received chain is the last of the sixteen outermost sent. -/
theorem getLast?_received_iff (d : ConnectionDto) :
    (fromDto parse d).containerChain.getLast? = some (fromDto parse d).container ↔
      (d.containerChain.take kMaxContainerChainDepth).getLast? = some d.container := by
  have hcontainer : (fromDto parse d).container = fromContainerDto d.container := rfl
  rw [hcontainer, fromDto, List.getLast?_map]
  exact (Option.map_injective fromContainerDto_injective).eq_iff (b := some d.container)

/-- **When the leaf of a chain arrives.**  For a chain that ends in its connection's own container:
what is received has a chain of at most sixteen entries that does so too exactly when the chain sent
had no more than sixteen, or its sixteenth happens to be the container. -/
theorem received_leaf_iff (d : ConnectionDto) (hleaf : d.containerChain.getLast? = some d.container) :
    (∃ c, received parse d.write = some c ∧ c.containerChain.length ≤ kMaxContainerChainDepth ∧
        c.containerChain.getLast? = some c.container) ↔
      d.containerChain.length ≤ kMaxContainerChainDepth ∨
        d.containerChain[15]? = some d.container := by
  have hshort : (fromDto parse d).containerChain.length ≤ kMaxContainerChainDepth := by
    rw [fromDto, List.length_map, List.length_take]
    exact Nat.min_le_left _ _
  have hreceived : (∃ c, received parse d.write = some c ∧
      c.containerChain.length ≤ kMaxContainerChainDepth ∧
        c.containerChain.getLast? = some c.container) ↔
      (d.containerChain.take kMaxContainerChainDepth).getLast? = some d.container := by
    simp only [received_write, Option.some.injEq, exists_eq_left', hshort, true_and,
      getLast?_received_iff]
  rw [hreceived]
  by_cases hlen : d.containerChain.length ≤ kMaxContainerChainDepth
  · rw [List.take_of_length_le hlen]
    exact iff_of_true hleaf (.inl hlen)
  · -- the cut ends at the sixteenth entry, which there is
    have hlt : 15 < d.containerChain.length := lt_trans (by decide) (not_le.mp hlen)
    obtain ⟨entry, hentry⟩ : ∃ entry, d.containerChain[15]? = some entry :=
      ⟨_, List.getElem?_eq_getElem hlt⟩
    have hcut : (d.containerChain.take kMaxContainerChainDepth).getLast? = some entry := by
      have hindex : kMaxContainerChainDepth - 1 = 15 := rfl
      rw [List.getLast?_take, if_neg (by decide), hindex, hentry]
      rfl
    rw [or_iff_right hlen, hcut, hentry]

/-- A connection seventeen containers deep, the innermost one its own. -/
def deepNest : ConnectionDto where
  containerRuntime := "docker".toList
  containerId := number 16
  containerChain := (List.range 17).map fun i => ⟨"docker".toList, number i, []⟩

/-- Its innermost container is cut off on the way. -/
theorem deepNest_loses_leaf :
    ¬ ∀ (parse : QString → QHostAddress) (d : ConnectionDto), d.containerChain ≠ [] →
      d.containerChain.getLast? = some d.container →
      ∃ c, received parse d.write = some c ∧ c.containerChain.length ≤ kMaxContainerChainDepth ∧
        c.containerChain.getLast? = some c.container := by
  intro h
  have hkept := h parseDotted deepNest (by decide) (by decide)
  rw [received_write] at hkept
  obtain ⟨c, hc, -, hlast⟩ := hkept
  obtain rfl := Option.some.inj hc
  exact absurd hlast (by decide)

/-- With sixteen containers the innermost arrives. -/
theorem nest_keeps_leaf :
    ∃ c, received parseDotted { deepNest with
        containerChain := deepNest.containerChain.drop 1 }.write = some c ∧
      c.containerChain.length ≤ kMaxContainerChainDepth ∧
        c.containerChain.getLast? = some c.container :=
  (received_leaf_iff parseDotted { deepNest with containerChain := deepNest.containerChain.drop 1 }
    (by decide)).mpr (.inl (by decide))

end Qiftop.Dbus
