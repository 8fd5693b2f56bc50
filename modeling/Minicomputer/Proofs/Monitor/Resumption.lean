import Minicomputer.Proofs.Monitor.Breakpoints

/-!
# Runs that are resumed

A run that is resumed after every stop at a breakpoint, or at the end of a limit, goes through the
machines of the run without breakpoints and comes to the same end.
-/

set_option autoImplicit false

namespace Minicomputer

/-- Runs one after the other, each with a limit of its own, and the number of all their cycles. -/
def Machine.resumed {σ : Type} (S : System σ) (m : Machine σ) : List Nat → Nat × Machine σ
  | [] => (0, m)
  | limit :: limits =>
    let p := m.runLimited S limit
    let q := resumed S p.2 limits
    (p.1 + q.1, q.2)

namespace Monitor

open Minicomputer.Machine

variable {bs : List Word} {m n : Machine Monitor}

/-- After `count` cycles in runs that were resumed at every stop: the machine to which as many
cycles without breakpoints lead, in the status of a run or in the same status. -/
structure Keeps (m : Machine Monitor) (bs : List Word) (count : Nat) (n : Machine Monitor) :
    Prop where
  count_eq : (m.runLimited system count).1 = count
  alike : ∃ status audience,
    n = { (m.runLimited system count).2 with status, audience, breakpoints := bs }
  going : n.status.isResumable = true → (m.runLimited system count).2.status = .executing
  ended : n.status.isResumable = false → n.status = (m.runLimited system count).2.status

theorem Keeps.setStatus_executing {count : Nat} (h : Keeps m bs count n)
    (hn : n.status.isResumable = true) :
    Alike (fun _ _ => True) bs (m.runLimited system count).2 (n.setStatus .executing) := by
  have hs := h.going hn
  obtain ⟨status, audience, heq⟩ := h.alike
  have hset := setStatus_eq n .executing
  generalize (n.setStatus .executing).audience = a at hset
  refine ⟨a, trivial, ?_⟩
  rw [hset, heq, ← hs]

theorem keeps_of_cut {limit count : Nat} (hm : ∀ k, Free (m.runLimited system k).2)
    (h : Cut (fun _ _ => True) bs (fun k => m.runLimited system k) limit (count, n)) :
    Keeps m bs count n := by
  cases h with
  | @stopped _ n' le first alike =>
    have hs := n'.status_setStatus .breakpoint
    obtain ⟨audience, -, heq⟩ := alike
    have hset := setStatus_eq n' .breakpoint
    generalize (n'.setStatus .breakpoint).audience = a at hset
    refine ⟨runLimited_fst_of_executing system first.2.1.1, ⟨.breakpoint, a, ?_⟩,
      fun _ => first.2.1.1, fun hr => ?_⟩
    · rw [hset, heq]
    · rw [hs] at hr
      cases hr
  | passed none count_eq alike =>
    have hstatus := alike.status
    obtain ⟨audience, -, heq⟩ := alike
    obtain rfl := count_eq
    refine ⟨?_, ⟨(m.runLimited system limit).2.status, audience, ?_⟩, ?_, ?_⟩ <;>
      rw [runLimited_count]
    · exact heq
    · rw [hstatus]
      exact (hm limit).status
    · exact fun _ => hstatus

/-- More cycles of a run that is still going on. -/
theorem Keeps.add {c k : Nat} (hs : (m.runLimited system c).2.status = .executing)
    (h : Keeps (m.runLimited system c).2 bs k n) : Keeps m bs (c + k) n := by
  obtain ⟨count_eq, alike, going, ended⟩ := h
  have hk := runLimited_add_of_executing system k hs
  constructor <;> rw [hk]
  · exact congrArg (c + ·) count_eq
  · exact alike
  · exact going
  · exact ended

theorem Keeps.runLimited (hm : ∀ k, Free (m.runLimited system k).2) {count : Nat}
    (h : Keeps m bs count n) (limit : Nat) :
    Keeps m bs (count + (n.runLimited system limit).1) (n.runLimited system limit).2 := by
  cases hn : n.status.isResumable with
  | false =>
    rw [runLimited_of_not_isResumable system limit hn]
    exact h
  | true =>
    have hs := h.going hn
    have hc := cut_runLimited (fun _ _ => trivial) (hm count) hs (h.setStatus_executing hn) limit
    rw [runLimited_setStatus_executing system limit hn] at hc
    exact (keeps_of_cut (fun k => (hm count).runLimited hs k) hc).add hs

theorem Keeps.resumed (hm : ∀ k, Free (m.runLimited system k).2) {count : Nat}
    (h : Keeps m bs count n) (limits : List Nat) :
    Keeps m bs (count + (n.resumed system limits).1) (n.resumed system limits).2 := by
  induction limits generalizing count n with
  | nil => exact h
  | cons limit limits ih =>
    have hl := ih (h.runLimited hm limit)
    rw [Nat.add_assoc] at hl
    exact hl

theorem resumed_of_not_isResumable (h : n.status.isResumable = false) (limits : List Nat) :
    n.resumed system limits = (0, n) := by
  induction limits with
  | nil => rfl
  | cons limit limits ih =>
    rw [Machine.resumed, runLimited_of_not_isResumable system limit h, ih]
    rfl

/-- Each run of a machine that can be resumed to the end has made progress. -/
theorem Keeps.length_le (hm : ∀ k, Free (m.runLimited system k).2) {count : Nat}
    (h : Keeps m bs count n) {limits : List Nat} (hl : ∀ limit ∈ limits, 0 < limit)
    (hr : (n.resumed system limits).2.status.isResumable = true) :
    limits.length ≤ (n.resumed system limits).1 := by
  induction limits generalizing count n with
  | nil => exact Nat.le_refl 0
  | cons limit limits ih =>
    have hn : n.status.isResumable = true := by
      by_contra hn
      rw [resumed_of_not_isResumable (Bool.not_eq_true _ ▸ hn)] at hr
      exact hn hr
    have hp : n.pauseRequested = false := by
      obtain ⟨status, audience, rfl⟩ := h.alike
      exact (hm count).pauseRequested
    have hpos := runLimited_fst_pos system (hl limit List.mem_cons_self) hn hp
    have hle := ih (h.runLimited hm limit) (fun l hmem => hl l (List.mem_cons_of_mem limit hmem)) hr
    change limits.length + 1 ≤ (n.runLimited system limit).1 +
      ((n.runLimited system limit).2.resumed system limits).1
    omega

section

variable (hm : m.status.isResumable = true) (hp : m.pauseRequested = false)

include hm hp

theorem keeps_start (bs : List Word) :
    Keeps (m.withBreakpoints []) bs 0 (m.withBreakpoints bs) := by
  have h := runLimited_zero system (m.withBreakpoints [] |>.status_setStatus .executing)
    (free_start hp).pauseRequested
  rw [runLimited_setStatus_executing (m := m.withBreakpoints []) system 0 hm, setStatus_eq] at h
  refine ⟨by rw [h], ⟨m.status, m.audience, by rw [h]; rfl⟩, fun _ => by rw [h], fun hr => ?_⟩
  exact absurd (hm.symm.trans hr) (by decide)

/-- Enough runs come to the end that the run without breakpoints comes to. -/
theorem resumed_of_stopped {limit : Nat} {limits : List Nat}
    (hs : ((m.withBreakpoints []).runLimited system limit).2.status ≠ .executing)
    (hl : ∀ limit ∈ limits, 0 < limit) (hlen : limit ≤ limits.length) :
    let free := (m.withBreakpoints []).runLimited system limit
    let resumed := (m.withBreakpoints bs).resumed system limits
    resumed.1 = free.1 ∧ ∃ audience, resumed.2 = { free.2 with audience, breakpoints := bs } := by
  dsimp only
  have hfree := free_runLimited hm hp
  have hk := (keeps_start hm hp bs).resumed hfree limits
  have hle := (keeps_start hm hp bs).length_le hfree hl
  rw [Nat.zero_add] at hk
  generalize (m.withBreakpoints bs).resumed system limits = r at hk hle
  cases hr : r.2.status.isResumable with
  | true =>
    have he := hk.going hr
    rw [runLimited_of_le system (Nat.le_trans hlen (hle hr)) hs] at he
    exact absurd he hs
  | false =>
    have hst := hk.ended hr
    have hre : ((m.withBreakpoints []).runLimited system r.1).2.status ≠ .executing := by
      rw [← hst]
      intro he
      rw [he] at hr
      cases hr
    -- Both numbers of cycles are enough for the run without breakpoints to stop.
    have heq : (m.withBreakpoints []).runLimited system limit =
        (m.withBreakpoints []).runLimited system r.1 := by
      obtain hle | hle := Nat.le_total limit r.1
      · exact (runLimited_of_le system hle hs).symm
      · exact runLimited_of_le system hle hre
    obtain ⟨status, audience, hr₂⟩ := hk.alike
    rw [heq]
    refine ⟨hk.count_eq.symm, audience, ?_⟩
    rw [hr₂] at hst ⊢
    rw [← hst]

/-- A run with breakpoints is the run without them as far as the first place where that one, still
executing, stands at a breakpoint; where it does so nowhere, it is that run. Whatever the limits of
the single runs are, to resume it leads through the same machines and, where the run without
breakpoints stops of itself, to the machine where that one stops. -/
theorem runLimited_withBreakpoints (bs : List Word) (limit : Nat) :
    let free := fun k => (m.withBreakpoints []).runLimited system k
    let cut := fun k => (m.withBreakpoints bs).runLimited system k
    let resumed := fun limits => (m.withBreakpoints bs).resumed system limits
    (∀ k, k ≤ limit → FirstStand (fun k => (free k).2) bs k →
        cut limit = (k, ((free k).2.withBreakpoints bs).setStatus .breakpoint)) ∧
      ((∀ k, 1 ≤ k → k ≤ limit → ¬ (free k).2.StandsAt bs) →
        cut limit = ((free limit).1, (free limit).2.withBreakpoints bs) ∧
          free (free limit).1 = free limit) ∧
      ((cut limit).2.status = .breakpoint ↔
        ∃ k, 1 ≤ k ∧ k ≤ limit ∧ (free k).2.StandsAt bs) ∧
      (∀ k, 1 ≤ k → k < (cut limit).1 →
        (cut k).2.status = .executing ∧ (cut k).2.pc ∉ bs) ∧
      (∀ limits, (free (resumed limits).1).1 = (resumed limits).1 ∧
        ∃ status audience, (resumed limits).2 =
          { (free (resumed limits).1).2 with status, audience, breakpoints := bs }) ∧
      ∀ limits, (free limit).2.status ≠ .executing → (∀ l ∈ limits, 0 < l) →
        limit ≤ limits.length →
          (resumed limits).1 = (free limit).1 ∧
            ∃ audience, (resumed limits).2 =
              { (free limit).2 with audience, breakpoints := bs } := by
  refine ⟨fun k => runLimited_of_firstStand hm hp,
    fun h => ⟨runLimited_of_not_standsAt hm hp h, runLimited_count system limit _⟩,
    status_eq_breakpoint_iff hm hp, fun k => not_mem_of_lt hm hp, fun limits => ?_,
    fun limits => resumed_of_stopped hm hp⟩
  have hk := (keeps_start hm hp bs).resumed (free_runLimited hm hp) limits
  rw [Nat.zero_add] at hk
  exact ⟨hk.count_eq, hk.alike⟩

end

/-- A machine with a program of two instructions that do nothing and a third one that ends it. -/
def twoNops : Machine Monitor :=
  ((Machine.new (.ofSeed 1)).load system (.plain [0x0F, 0xFF, 0x0F, 0xFF, 0x00, 0x00] [] "")).2

theorem runLimited_withBreakpoints_twoNops :
    twoNops.status.isResumable = true ∧ twoNops.pauseRequested = false ∧
      ((twoNops.withBreakpoints [2]).runLimited system 9).1 = 1 ∧
      ((twoNops.withBreakpoints [2]).runLimited system 9).2.status = .breakpoint ∧
      ((twoNops.withBreakpoints [2]).resumed system (List.replicate 9 9)).1 = 3 ∧
      ((twoNops.withBreakpoints [2]).resumed system (List.replicate 9 9)).2.status = .finished := by
  have hm : twoNops.status.isResumable = true := by decide +kernel
  have hp : twoNops.pauseRequested = false := by decide +kernel
  have hfirst : FirstStand (fun k => ((twoNops.withBreakpoints []).runLimited system k).2) [2] 1 :=
    ⟨Nat.le_refl 1, ⟨by decide +kernel, by decide +kernel⟩, by omega⟩
  have hcount : ((twoNops.withBreakpoints []).runLimited system 9).1 = 3 := by decide +kernel
  have hstatus : ((twoNops.withBreakpoints []).runLimited system 9).2.status = .finished := by
    decide +kernel
  obtain ⟨hcut, -, hbreak, -, -, hend⟩ := runLimited_withBreakpoints hm hp [2] 9
  have hrun := hcut 1 (by decide) hfirst
  obtain ⟨hsum, audience, hlast⟩ := hend (List.replicate 9 9) (by rw [hstatus]; decide)
    (by decide) (by decide)
  dsimp only at hrun hbreak hsum hlast
  have hstop := hbreak.mpr ⟨1, Nat.le_refl 1, by decide, hfirst.2.1⟩
  have hend := congrArg Machine.status hlast
  dsimp only at hend
  exact ⟨hm, hp, congrArg Prod.fst hrun, hstop, hsum.trans hcount, hend.trans hstatus⟩

end Monitor
end Minicomputer
