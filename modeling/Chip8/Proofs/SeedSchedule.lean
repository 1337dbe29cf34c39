import Chip8.Proofs.Footprint

/-!
# The schedule of the seed

Two things move the seed: every cycle adds one to it, and a random byte stirs it.  Stirring adds
one of its own before it replaces the high byte, so the low byte still counts, cycles and random
bytes together; and where no random byte is asked for, the whole seed counts the cycles.  What a
random byte is, and what it leaves of the seed, is told here in numbers.
-/

set_option autoImplicit false

namespace Chip8

namespace Random

/-- The byte that comes from an advanced seed and a byte of memory, in numbers. -/
def answer (seed byte : Nat) : Nat :=
  let mixed := (byte + seed / 256) % 256
  (mixed + ((BitVec.ofNat 8 mixed).rotateRight 1).toNat) % 256

theorem answer_lt (seed byte : Nat) : answer seed byte < 256 := Nat.mod_lt _ (by decide)

theorem toNat_turnRight (byte : UInt8) :
    (turnRight byte).toNat = ((BitVec.ofNat 8 byte.toNat).rotateRight 1).toNat := by
  have same : BitVec.ofNat 8 byte.toNat = byte.toBitVec := BitVec.ofNat_toNat 8 _
  rw [same]
  rfl

theorem next_spec (seed : UInt16) (pc : Nat) (memory : Memory) :
    let t := (seed.toNat + 1) % 65536
    let value := answer t (memory.byte ((pc / 256 * 256 + t % 256) % memory.size)).toNat
    (next seed pc memory).1.toNat = value ∧
      (next seed pc memory).2.toNat = 256 * value + t % 256 := by
  intro t value
  have advanced : (seed + 1).toNat = t := UInt16.toNat_add seed 1
  have byte : (next seed pc memory).1.toNat = value := by
    simp only [next, address, UInt8.toNat_add, toNat_turnRight, UInt8.toNat_ofNat', advanced,
      Nat.add_mod_mod]
    rfl
  have small : value < 256 := answer_lt _ _
  refine ⟨byte, ?_⟩
  have seeded : (next seed pc memory).2 =
      UInt16.ofNat ((next seed pc memory).1.toNat * 256 + (seed + 1).toNat % 256) := rfl
  rw [seeded, byte, advanced, UInt16.toNat_ofNat_of_lt']
  · rw [Nat.mul_comm]
  · show _ < 65536
    omega

/-- The page of an address of sixteen bits. -/
theorem and_page {address : Nat} (small : address < 65536) :
    address &&& 0xFF00 = address / 256 * 256 := by
  have mask : 0xFF00 = (2 ^ 8 - 1) * 2 ^ 8 := by decide
  have page : address / 256 * 256 = address / 2 ^ 8 * 2 ^ 8 := rfl
  apply Nat.eq_of_testBit_eq
  intro i
  rw [mask, page, Nat.testBit_and, Nat.testBit_mul_two_pow, Nat.testBit_mul_two_pow,
    Nat.testBit_two_pow_sub_one, Nat.testBit_div_two_pow]
  by_cases high : 8 ≤ i
  · rw [Nat.sub_add_cancel high]
    by_cases inside : i < 16
    · have masked : i - 8 < 8 := by omega
      simp [high, masked]
    · have beyond : 2 ^ 16 ≤ 2 ^ i := Nat.pow_le_pow_right (by decide) (Nat.le_of_not_lt inside)
      have dark : address.testBit i = false :=
        Nat.testBit_lt_two_pow (Nat.lt_of_lt_of_le small beyond)
      simp [dark]
  · simp [high]

end Random

namespace Machine

open Instruction

variable {w h : Nat}

/-! ## One cycle of the seed -/

def asksRandom (m : Machine w h) : Bool :=
  match m.executes? with
  | some (.random _ _) => true
  | _ => false

theorem seed_cycle (keys : KeySet) {m : Machine w h} (ok : m.isOk = true) :
    (m.cycle keys).1.seed = m.executes?.elim m.seed m.advance.seedAfter + 1 := by
  cases executed : m.executes? with
  | some instruction =>
      obtain ⟨done, fault, machineCycles, effect, left⟩ := cycle_eq_of_executes keys executed
      have seeded : done.seed = m.advance.seedAfter instruction := by
        rw [effect.seed]
        cases instruction <;> rfl
      rw [left, Option.elim_some, ← seeded]
      rfl
  | none =>
      cases waiting : m.wait with
      | some x => exact (cycle_pollsOnly keys ok waiting).seed
      | none =>
          obtain ⟨pc, fault, machineCycles, left⟩ := cycle_of_unexecuted keys ok waiting executed
          rw [left]
          rfl

theorem seed_cycle_of_counting (keys : KeySet) {m : Machine w h} (ok : m.isOk = true)
    (counting : m.asksRandom = false) : (m.cycle keys).1.seed = m.seed + 1 := by
  rw [seed_cycle keys ok]
  unfold asksRandom at counting
  cases executed : m.executes? with
  | none => rfl
  | some instruction =>
      rw [executed] at counting
      cases instruction with
      | random x mask => cases counting
      | _ => rfl

/-- A random byte takes the high byte of the seed and advances the low one by one more. -/
theorem seed_cycle_of_asksRandom (keys : KeySet) {m : Machine w h} (ok : m.isOk = true)
    (asks : m.asksRandom = true) :
    (m.cycle keys).1.seed.toNat % 256 = (m.seed.toNat + 2) % 256 := by
  unfold asksRandom at asks
  split at asks
  · rename_i x mask executed
    have stirred := (Random.next_spec m.seed m.advance.pc m.memory).2
    have seeded : (m.cycle keys).1.seed = (Random.next m.seed m.advance.pc m.memory).2 + 1 := by
      rw [seed_cycle keys ok, executed]
      rfl
    rw [seeded, UInt16.toNat_add, stirred]
    show (_ + 1) % 65536 % 256 = _
    omega
  · cases asks

/-! ## The seed over a run -/

/-- Cycles that were executed, and requests for a random byte among them. -/
structure Tally where
  cycles : Nat
  randoms : Nat
  deriving DecidableEq

def countRandom (m : Machine w h) (action : Action) (count : Nat) : Nat :=
  match action with
  | .load _ | .loadStream _ => 0
  | .cycle _ => if m.asksRandom then count + 1 else count
  | .invalidate _ | .validate => count

def tally (m : Machine w h) (action : Action) (count : Tally) : Tally :=
  ⟨m.countCycle action count.cycles, m.countRandom action count.randoms⟩

/-- How far the seed has come from `start`, going by what was counted since. -/
structure Advanced (start : UInt16) (m : Machine w h) (count : Tally) : Prop where
  low : m.seed.toNat % 256 = (start.toNat + count.cycles + count.randoms) % 256
  whole : count.randoms = 0 → m.seed.toNat = (start.toNat + count.cycles) % 65536

theorem advanced_start (m : Machine w h) : Advanced m.seed m ⟨0, 0⟩ := by
  have small : m.seed.toNat < 65536 := m.seed.toNat_lt
  exact ⟨rfl, fun _ => (Nat.mod_eq_of_lt small).symm⟩

theorem Advanced.cycle {start : UInt16} {m : Machine w h} {count : Tally}
    (advanced : Advanced start m count) (keys : KeySet) :
    Advanced start (m.cycle keys).1 (m.tally (.cycle keys) count) := by
  cases ok : m.isOk with
  | false =>
      have silent : m.asksRandom = false := by
        simp [asksRandom, executes?_of_stopped ok]
      rw [cycle_of_stopped keys ok]
      simpa only [tally, countCycle, countRandom, ok, silent, Bool.false_eq_true, if_false]
        using advanced
  | true =>
      obtain ⟨low, whole⟩ := advanced
      cases asks : m.asksRandom with
      | false =>
          have counted : (m.cycle keys).1.seed.toNat = (m.seed.toNat + 1) % 65536 := by
            rw [seed_cycle_of_counting keys ok asks]
            exact UInt16.toNat_add _ _
          simp only [tally, countCycle, countRandom, ok, asks, Bool.false_eq_true, if_true,
            if_false]
          refine ⟨?_, ?_⟩
          · show _ = (start.toNat + (count.cycles + 1) + count.randoms) % 256
            omega
          · intro none
            have before := whole none
            show _ = (start.toNat + (count.cycles + 1)) % 65536
            omega
      | true =>
          have stirred := seed_cycle_of_asksRandom keys ok asks
          simp only [tally, countCycle, countRandom, ok, asks, if_true]
          refine ⟨?_, fun none => absurd none (Nat.succ_ne_zero _)⟩
          show _ = (start.toNat + (count.cycles + 1) + (count.randoms + 1)) % 256
          omega

theorem Advanced.interact {start : UInt16} {m : Machine w h} {count : Tally}
    (advanced : Advanced start m count) {interaction : Interaction}
    (going : interaction.isLoad = false) :
    Advanced start (m.interact interaction) (m.noteOf tally count interaction) := by
  cases interaction with
  | act action =>
      cases action with
      | load program => cases going
      | loadStream stream => cases going
      | cycle keys => exact advanced.cycle keys
      | invalidate area => exact ⟨advanced.low, advanced.whole⟩
      | validate => exact ⟨advanced.low, advanced.whole⟩
  | write row offset bytes => exact ⟨advanced.low, advanced.whole⟩

/-- A load takes the seed of the configuration again. -/
theorem advanced_of_isLoad (m : Machine w h) (count : Tally) {interaction : Interaction}
    (starts : interaction.isLoad = true) :
    Advanced m.config.seed (m.interact interaction) (m.noteOf tally count interaction) := by
  cases interaction with
  | act action =>
      cases action with
      | load program => exact advanced_start (m.load program).1
      | loadStream stream => exact advanced_start (m.loadStream stream).1
      | cycle keys => cases starts
      | invalidate area => cases starts
      | validate => cases starts
  | write row offset bytes => cases starts

theorem advanced_through (config : Config) (history : List Interaction) :
    Advanced config.seed ((new config : Machine w h).through history)
      ((new config : Machine w h).notes tally ⟨0, 0⟩ history) := by
  have kept : ∀ interaction ∈ history, ∀ (m : Machine w h) (count : Tally),
      m.Loadable config ∧ Advanced config.seed m count →
        (m.interact interaction).Loadable config ∧
          Advanced config.seed (m.interact interaction) (m.noteOf tally count interaction) := by
    rintro interaction _ m count ⟨loadable, advanced⟩
    refine ⟨loadable.interact interaction, ?_⟩
    have seed : m.config.seed = config.seed := by
      rw [loadable.configured]
      rfl
    cases loads : interaction.isLoad with
    | false => exact advanced.interact loads
    | true => exact seed ▸ advanced_of_isLoad m count loads
  exact (notes_keeps history kept ⟨new_loadable config, advanced_start (new config)⟩).2

/-! ## A request for a random byte -/

theorem executes?_of_random {m : Machine w h} {word : UInt16} (meets : m.Meets word)
    (leading : family word = 0xC) :
    m.executes? = some (.random (fieldX word) (fieldByte word)) := by
  have decoded : decode? word = some (.random (fieldX word) (fieldByte word)) := by
    simp only [decode?, leading]
  exact executes?_of_meets meets decoded rfl

/-- The register and the seed that a request for a random byte leaves, in numbers. -/
theorem cycle_of_random (keys : KeySet) {m : Machine w h} {word : UInt16} {b : UInt8}
    (meets : m.Meets word) (leading : family word = 0xC) (page : m.pc + 2 < 65536)
    (stirred : m.memory.get?
      ((((m.pc + 2) &&& 0xFF00) + (m.seed.toNat + 1) % 65536 % 256) % m.memory.size) = some b) :
    let t := (m.seed.toNat + 1) % 65536
    let value := Random.answer t b.toNat
    ((m.cycle keys).1.register (fieldX word)).toNat = value &&& (fieldByte word).toNat ∧
      (m.cycle keys).1.seed.toNat = (256 * value + t % 256 + 1) % 65536 := by
  intro t value
  have executed := executes?_of_random meets leading
  obtain ⟨byte, seed⟩ := Random.next_spec m.seed (m.pc + 2) m.memory
  rw [Random.and_page page] at stirred
  rw [Memory.byte, stirred, Option.getD_some] at byte seed
  refine ⟨?_, ?_⟩
  · have masked : (m.cycle keys).1.register (fieldX word) =
        (Random.next m.seed (m.pc + 2) m.memory).1 &&& fieldByte word := by
      rw [register_cycle_of_executes keys executed]
      exact if_pos rfl
    rw [masked, UInt8.toNat_and, byte]
  · have advanced : (m.cycle keys).1.seed = (Random.next m.seed (m.pc + 2) m.memory).2 + 1 := by
      rw [seed_cycle keys meets.ok, executed]
      rfl
    rw [advanced, UInt16.toNat_add, seed]
    rfl

/-- The low byte of the seed counts the cycles and the random bytes of a program, the whole seed
counts the cycles where no random byte is asked for, and a random byte comes from the seed, the
page that is executed and the memory as it is by then. -/
theorem seed_schedule_exact (config : Config) (history : List Interaction) :
    let new : Machine w h := new config
    let m := new.through history
    let count := new.notes tally ⟨0, 0⟩ history
    m.seed.toNat % 256 = (config.seed.toNat + count.cycles + count.randoms) % 256 ∧
      (∀ stretch, (∀ interaction ∈ stretch, interaction.isLoad = false) →
        (m.notes tally ⟨0, 0⟩ stretch).randoms = 0 →
        (m.through stretch).seed.toNat =
          (m.seed.toNat + (m.notes tally ⟨0, 0⟩ stretch).cycles) % 65536) ∧
      ∀ keys word, m.Meets word → family word = 0xC →
        let t := (m.seed.toNat + 1) % 65536
        let p := m.pc + 2
        ∃ b, m.memory.get? (((p &&& 0xFF00) + t % 256) % m.memory.size) = some b ∧
          let value := Random.answer t b.toNat
          ((m.cycle keys).1.register (fieldX word)).toNat = value &&& (fieldByte word).toNat ∧
            (m.cycle keys).1.seed.toNat = (256 * value + t % 256 + 1) % 65536 := by
  intro new m count
  refine ⟨(advanced_through config history).low, ?_, ?_⟩
  · intro stretch going none
    have advanced : Advanced m.seed (m.through stretch) (m.notes tally ⟨0, 0⟩ stretch) :=
      notes_keeps stretch (fun interaction listed _ _ before =>
        before.interact (going interaction listed)) (advanced_start m)
    exact advanced.whole none
  · intro keys word meets leading t p
    have wellFormed : m.WellFormed := (new_wellFormed config).through history
    have page : m.pc + 2 < 65536 := by
      have whole : m.pc + 2 ≤ m.memory.size := width_le_of_fetch? meets.fetched
      have most : m.memory.size ≤ 0x1000 := wellFormed.size ▸ wellFormed.most
      omega
    have inside := Nat.mod_lt ((p &&& 0xFF00) + t % 256) wellFormed.size_pos
    have found : m.memory.get? (((p &&& 0xFF00) + t % 256) % m.memory.size) =
        some m.memory.bytes[((p &&& 0xFF00) + t % 256) % m.memory.size] :=
      Array.getElem?_eq_getElem inside
    exact ⟨_, found, cycle_of_random keys meets leading page found⟩

/-- A loop that asks for random bytes in a memory that is no whole number of pages, so that the
byte stirred in is one of the font. -/
theorem seed_schedule_exact_of_loop :
    let new : Machine 8 4 := .new { memorySize := 0x204, seed := 0xFF05 }
    let asking : List Interaction :=
      [.act (.load [0xC3, 0x7F, 0x12, 0x00]), .act (.cycle ∅), .act (.cycle ∅)]
    let stretch : List Interaction := [.act .validate, .act (.cycle ⟨0x0001⟩)]
    let m := new.through asking
    let asked := new.through (asking ++ [.act (.cycle ∅)])
    m.Meets 0xC37F ∧ m.seed.toNat % 256 = (0xFF05 + 2 + 1) % 256 ∧
      (∃ b, m.memory.get? 0x005 = some b ∧
        ((m.cycle ∅).1.register 3).toNat =
          Random.answer (m.seed.toNat + 1) b.toNat &&& 0x7F) ∧
      (∀ interaction ∈ stretch, interaction.isLoad = false) ∧
      (asked.notes tally ⟨0, 0⟩ stretch).randoms = 0 ∧
      (asked.through stretch).seed.toNat = (asked.seed.toNat + 1) % 65536 := by
  intro new asking stretch m asked
  have facts : new.notes tally ⟨0, 0⟩ asking = ⟨2, 1⟩ ∧
      asked.notes tally ⟨0, 0⟩ stretch = ⟨1, 0⟩ ∧ m.Meets 0xC37F ∧ m.seed.toNat = 0x5608 ∧
      m.pc = 0x200 ∧ m.memory.size = 0x204 := by
    decide +kernel
  have leading : family 0xC37F = 0xC ∧ fieldX 0xC37F = 3 ∧ fieldByte 0xC37F = 0x7F := by decide
  have going : ∀ interaction ∈ stretch, interaction.isLoad = false := by decide
  subst asked m stretch asking new
  obtain ⟨counted, rested, meets, seed, pc, size⟩ := facts
  have run := seed_schedule_exact (w := 8) (h := 4) { memorySize := 0x204, seed := 0xFF05 }
    [.act (.load [0xC3, 0x7F, 0x12, 0x00]), .act (.cycle ∅), .act (.cycle ∅)]
  have later := seed_schedule_exact (w := 8) (h := 4) { memorySize := 0x204, seed := 0xFF05 }
    ([.act (.load [0xC3, 0x7F, 0x12, 0x00]), .act (.cycle ∅), .act (.cycle ∅)] ++
      [.act (.cycle ∅)])
  obtain ⟨b, found, value, _⟩ := run.2.2 ∅ 0xC37F meets leading.1
  refine ⟨meets, ?_, ⟨b, ?_, ?_⟩, going, ?_, ?_⟩
  · rw [run.1, counted]
    rfl
  · rw [seed, pc, size] at found
    exact found
  · rw [leading.2.1, leading.2.2] at value
    rw [value, seed]
    rfl
  · rw [rested]
  · rw [later.2.1 _ going (by rw [rested]), rested]

end Machine

end Chip8
