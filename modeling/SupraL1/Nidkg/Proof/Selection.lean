import SupraL1.Lib.KeySet
import SupraL1.Nidkg.Tool

/-!
# The selection of dealings

`generate_key` and `generate_reshare_key` take the first `threshold` dealings of the transcript that
verify. A dealing that does not verify is passed over; one that cannot be read ends the command. So
the loops end with the first verified dealings exactly if every entry up to the last of them can be
read (`selection_not_blocked_iff`).
-/

namespace Nidkg.Proof

open Std

variable {T : Types} {E : Env T}

section
variable (E : Env T) (verifies : Nat → T.Dealing → Bool)

/-- The dealing of an entry that can be read and verifies, with its index. -/
def verifyingEntry (entry : Nat × DkgDealing) : Option (Nat × T.Dealing) :=
  match entry.2.tryInto E with
  | .ok dealing => if verifies entry.1 dealing then some (entry.1, dealing) else none
  | .error _ => none

/-- The verifying dealings of a transcript, in the order of their indices. -/
def verifying (entries : List (Nat × DkgDealing)) : List (Nat × T.Dealing) :=
  entries.filterMap (verifyingEntry E verifies)

/-- Every entry that comes before the `n`-th verifying one, or is it, can be read. -/
def ReadableUpTo (n : Nat) (entries : List (Nat × DkgDealing)) : Prop :=
  ∀ before entry after, entries = before ++ entry :: after →
    (verifying E verifies before).length < n → ∃ dealing, entry.2.tryInto E = .ok dealing

end

/-! ## One entry -/

variable {verifies : Nat → T.Dealing → Bool} {entry : Nat × DkgDealing}
  {entries : List (Nat × DkgDealing)} {dealing : T.Dealing}

theorem verifying_cons_of_verifies (h : entry.2.tryInto E = .ok dealing)
    (hv : verifies entry.1 dealing = true) (entries : List (Nat × DkgDealing)) :
    verifying E verifies (entry :: entries) = (entry.1, dealing) :: verifying E verifies entries := by
  rw [verifying, List.filterMap_cons, verifyingEntry, h]
  dsimp only
  rw [if_pos hv]
  rfl

theorem verifying_cons_of_not (h : entry.2.tryInto E = .ok dealing)
    (hv : ¬ verifies entry.1 dealing = true) (entries : List (Nat × DkgDealing)) :
    verifying E verifies (entry :: entries) = verifying E verifies entries := by
  rw [verifying, List.filterMap_cons, verifyingEntry, h]
  dsimp only
  rw [if_neg hv]
  rfl

/-- The first entry has to be read, and with it the entries up to the next verifying ones. -/
theorem readableUpTo_cons {n : Nat} :
    ReadableUpTo E verifies (n + 1) (entry :: entries) ↔
      ∃ dealing, entry.2.tryInto E = .ok dealing ∧
        ReadableUpTo E verifies (if verifies entry.1 dealing then n else n + 1) entries := by
  have hcount : ∀ {dealing}, entry.2.tryInto E = .ok dealing → ∀ before,
      ((verifying E verifies (entry :: before)).length < n + 1 ↔
        (verifying E verifies before).length < if verifies entry.1 dealing then n else n + 1) := by
    intro dealing h before
    by_cases hv : verifies entry.1 dealing = true
    · rw [verifying_cons_of_verifies h hv, if_pos hv, List.length_cons]
      exact Nat.add_lt_add_iff_right
    · rw [verifying_cons_of_not h hv, if_neg hv]
  constructor
  · intro h
    obtain ⟨dealing, hdealing⟩ := h [] entry entries rfl (Nat.succ_pos n)
    refine ⟨dealing, hdealing, fun before e after heq hlt => ?_⟩
    exact h (entry :: before) e after (by rw [heq, List.cons_append]) ((hcount hdealing before).2 hlt)
  · rintro ⟨dealing, hdealing, h⟩ before e after heq hlt
    cases before with
    | nil =>
      cases heq
      exact ⟨dealing, hdealing⟩
    | cons b before =>
      obtain ⟨rfl, hentries⟩ := List.cons.inj heq
      exact h before e after hentries ((hcount hdealing before).1 hlt)

/-! ## The loop -/

theorem selectDealings_cons {σ : Type} {push : σ → Nat → T.Dealing → σ} {len : σ → Nat}
    {threshold index : Nat} {ser : DkgDealing} (hser : ser.tryInto E = .ok dealing) (s : σ) :
    selectDealings E verifies push len threshold ((index, ser) :: entries) s =
      (let s₁ := if verifies index dealing then push s index dealing else s
        if len s₁ = threshold then .ok s₁
        else selectDealings E verifies push len threshold entries s₁) := by
  rw [selectDealings, hser]
  rfl

section
variable {σ : Type} {push : σ → Nat → T.Dealing → σ} {len : σ → Nat} {threshold : Nat}
  (Holds : σ → List (Nat × T.Dealing) → Prop)
  (hlen : ∀ s l, Holds s l → len s = l.length)
  (hpush : ∀ s l i d, Holds s l → (∀ p ∈ l, p.1 < i) → Holds (push s i d) (l ++ [(i, d)]))
include hlen hpush

/-- **What a selection loop ends with**: `s` holds the dealings `l` selected before. -/
theorem selectDealings_iff {s : σ} {l : List (Nat × T.Dealing)} (hs : Holds s l)
    (hlt : l.length < threshold) (hsorted : entries.Pairwise fun e e' => e.1 < e'.1)
    (habove : ∀ p ∈ l, ∀ e ∈ entries, p.1 < e.1) :
    (∃ s', selectDealings E verifies push len threshold entries s = .ok s' ∧
      Holds s' ((l ++ verifying E verifies entries).take threshold)) ↔
      ReadableUpTo E verifies (threshold - l.length) entries := by
  induction entries generalizing s l with
  | nil =>
    refine ⟨fun _ before e after heq => ?_, fun _ => ⟨s, rfl, ?_⟩⟩
    · cases before <;> cases heq
    · rw [show verifying E verifies [] = [] from rfl, List.append_nil, List.take_of_length_le hlt.le]
      exact hs
  | cons entry entries ih =>
    obtain ⟨n, hn⟩ : ∃ n, threshold - l.length = n + 1 := ⟨threshold - l.length - 1, by omega⟩
    obtain ⟨hfirst, htail⟩ := List.pairwise_cons.1 hsorted
    obtain ⟨index, ser⟩ := entry
    rw [hn, readableUpTo_cons]
    cases hser : ser.tryInto E with
    | error e =>
      constructor
      · rintro ⟨s', hs', -⟩
        rw [selectDealings, hser] at hs'
        cases hs'
      · rintro ⟨d, hd, -⟩
        cases hd
    | ok d =>
      simp only [selectDealings_cons hser, Except.ok.injEq, exists_eq_left']
      by_cases hv : verifies index d = true
      · have hs₁ := hpush s l index d hs fun p hp => habove p hp _ List.mem_cons_self
        have habove₁ : ∀ p ∈ l ++ [(index, d)], ∀ e ∈ entries, p.1 < e.1 := by
          intro p hp e he
          rcases List.mem_append.1 hp with hp | hp
          · exact habove p hp e (List.mem_cons_of_mem _ he)
          · rw [List.mem_singleton.1 hp]
            exact hfirst e he
        have hcount : (l ++ [(index, d)]).length = l.length + 1 := List.length_append
        have hselected : l ++ verifying E verifies ((index, ser) :: entries) =
            l ++ [(index, d)] ++ verifying E verifies entries := by
          rw [verifying_cons_of_verifies hser hv]
          exact List.append_cons ..
        rw [if_pos hv, if_pos hv, hselected, hlen _ _ hs₁, hcount]
        by_cases hfull : l.length + 1 = threshold
        · -- this was the last dealing that is needed
          rw [if_pos hfull, show n = 0 by omega]
          refine ⟨fun _ before e after _ hlt => absurd hlt (Nat.not_lt_zero _),
            fun _ => ⟨_, rfl, ?_⟩⟩
          rw [List.take_left' (hcount.trans hfull)]
          exact hs₁
        · rw [if_neg hfull, show n = threshold - (l ++ [(index, d)]).length by omega]
          exact ih hs₁ (by omega) htail habove₁
      · rw [if_neg hv, if_neg hv, verifying_cons_of_not hser hv, hlen _ _ hs, if_neg hlt.ne, ← hn]
        exact ih hs hlt htail fun p hp e he => habove p hp e (List.mem_cons_of_mem _ he)

end

/-! ## The two commands -/

section
variable (E : Env T) (config : DkgConfig) (cgPks : TreeMap Nat T.CGPublicKey)

/-- The check of a dealing by `generate_key`. -/
def keyVerifies (_ : Nat) (dealing : T.Dealing) : Bool :=
  E.verifyDealing dealing cgPks config.nodes config.threshold

/-- The check of a dealing by `generate_reshare_key`, against the polynomial of the committee. -/
def reshareVerifies (publicPoly : PublicPolynomial T) (index : Nat) (dealing : T.Dealing) : Bool :=
  E.verifyResharingDealing dealing cgPks config.nodes config.threshold index publicPoly

end

section
variable {config : DkgConfig} {cgPks : TreeMap Nat T.CGPublicKey} {transcript : DkgTranscript}

theorem transcript_sorted (transcript : DkgTranscript) :
    transcript.dealings.toList.Pairwise fun e e' => e.1 < e'.1 :=
  TreeMap.ordered_keys_toList.imp fun h => Nat.compare_eq_lt.1 h

theorem keyDealings_iff (hpos : 0 < config.threshold) :
    keyDealings E config cgPks transcript =
        .ok (((verifying E (keyVerifies E config cgPks) transcript.dealings.toList).take
          config.threshold).map (·.2)) ↔
      ReadableUpTo E (keyVerifies E config cgPks) config.threshold transcript.dealings.toList := by
  have hloop : (∃ dealings, keyDealings E config cgPks transcript = .ok dealings ∧
      dealings = (([] ++ verifying E (keyVerifies E config cgPks) transcript.dealings.toList).take
        config.threshold).map Prod.snd) ↔
      ReadableUpTo E (keyVerifies E config cgPks) (config.threshold - 0)
        transcript.dealings.toList := by
    refine selectDealings_iff (fun dealings (l : List (Nat × T.Dealing)) => dealings = l.map (·.2))
      ?_ ?_ (s := []) (l := []) rfl hpos (transcript_sorted transcript) ?_
    · intro s l hs
      rw [hs, List.length_map]
    · intro s l i d hs _
      rw [hs, List.map_append, List.map_singleton]
    · intro p hp
      cases hp
  rw [List.nil_append, Nat.sub_zero] at hloop
  rw [← hloop]
  constructor
  · intro h
    exact ⟨_, h, rfl⟩
  · intro ⟨dealings, h, hdealings⟩
    rw [h, hdealings]

theorem reshareKeyDealings_iff (publicPoly : PublicPolynomial T) (hpos : 0 < config.threshold) :
    (∃ dealings, reshareKeyDealings E config cgPks publicPoly transcript = .ok dealings ∧
      dealings.toList = (verifying E (reshareVerifies E config cgPks publicPoly)
        transcript.dealings.toList).take config.threshold) ↔
      ReadableUpTo E (reshareVerifies E config cgPks publicPoly) config.threshold
        transcript.dealings.toList := by
  have hloop : (∃ dealings, reshareKeyDealings E config cgPks publicPoly transcript = .ok dealings ∧
      dealings.toList = ([] ++ verifying E (reshareVerifies E config cgPks publicPoly)
        transcript.dealings.toList).take config.threshold) ↔
      ReadableUpTo E (reshareVerifies E config cgPks publicPoly) (config.threshold - 0)
        transcript.dealings.toList := by
    refine selectDealings_iff (fun (dealings : TreeMap Nat T.Dealing) l => dealings.toList = l)
      ?_ ?_ (s := ∅) (l := []) rfl hpos (transcript_sorted transcript) ?_
    · intro s l hs
      rw [← hs, TreeMap.length_toList]
    · intro s l i d hs h
      subst hs
      exact KeySet.toList_insert_last fun p hp => Nat.compare_eq_lt.2 (h p hp)
    · intro p hp
      cases hp
  rwa [List.nil_append, Nat.sub_zero] at hloop

/-- **One bad dealer blocks the keys of all**: with enough verifying dealings in the transcript, the
loops end with the first of them, in the order of the indices, exactly if no entry before the last of
them is malformed. -/
theorem selection_not_blocked_iff (E : Env T) (config : DkgConfig)
    (cgPks : TreeMap Nat T.CGPublicKey) (publicPoly : PublicPolynomial T) (transcript : DkgTranscript)
    (hpos : 0 < config.threshold) :
    (config.threshold ≤
        (verifying E (keyVerifies E config cgPks) transcript.dealings.toList).length →
      (keyDealings E config cgPks transcript =
          .ok (((verifying E (keyVerifies E config cgPks) transcript.dealings.toList).take
            config.threshold).map (·.2)) ↔
        ReadableUpTo E (keyVerifies E config cgPks) config.threshold transcript.dealings.toList)) ∧
    (config.threshold ≤
        (verifying E (reshareVerifies E config cgPks publicPoly) transcript.dealings.toList).length →
      ((∃ dealings, reshareKeyDealings E config cgPks publicPoly transcript = .ok dealings ∧
          dealings.toList = (verifying E (reshareVerifies E config cgPks publicPoly)
            transcript.dealings.toList).take config.threshold) ↔
        ReadableUpTo E (reshareVerifies E config cgPks publicPoly) config.threshold
          transcript.dealings.toList)) :=
  ⟨fun _ => keyDealings_iff hpos, fun _ => reshareKeyDealings_iff publicPoly hpos⟩

end

/-! ## A malformed dealing before and behind the others -/

/-- Four nodes, of which two dealings are needed. -/
def fourNodes : DkgConfig where
  threshold := 2
  nodes := 4
  cgPublicKeys := TreeMap.ofList
    (["00", "01", "00", "00"].zipIdx.map fun (key, i) => (i, DkgCGPublicKey.mk key))

/-- The transcript with these dealings. -/
def dealingsOf (dealings : List String) : DkgTranscript where
  dealings := TreeMap.ofList (dealings.zipIdx.map fun (dealing, i) => (i, DkgDealing.mk dealing))

def malformedLast : DkgTranscript := dealingsOf ["00", "01", "01", "zz"]

def malformedFirst : DkgTranscript := dealingsOf ["zz", "01", "01", "01"]

theorem selection_not_blocked_small :
    ReadableUpTo (plainEnv fourNodes malformedLast ⟨∅⟩)
      (keyVerifies (plainEnv fourNodes malformedLast ⟨∅⟩) fourNodes ∅) 2
      malformedLast.dealings.toList ∧
    ReadableUpTo (plainEnv fourNodes malformedLast ⟨∅⟩)
      (reshareVerifies (plainEnv fourNodes malformedLast ⟨∅⟩) fourNodes ∅ ⟨1, 1⟩) 2
      malformedLast.dealings.toList :=
  let h := selection_not_blocked_iff (plainEnv fourNodes malformedLast ⟨∅⟩) fourNodes ∅ ⟨1, 1⟩
    malformedLast (by decide)
  ⟨(h.1 (by decide +kernel)).1 (by decide +kernel),
    (h.2 (by decide +kernel)).1 ⟨.ofList [(1, 1), (2, 1)], rfl, rfl⟩⟩

/-- Three dealings verify and two are needed, but the first entry is malformed: both loops fail at
it, and with them the commands, which have written nothing. -/
theorem selection_blocked :
    2 ≤ (verifying (plainEnv fourNodes malformedFirst ⟨∅⟩)
      (keyVerifies (plainEnv fourNodes malformedFirst ⟨∅⟩) fourNodes ∅)
      malformedFirst.dealings.toList).length ∧
    keyDealings (plainEnv fourNodes malformedFirst ⟨∅⟩) fourNodes ∅ malformedFirst =
      .error (.hexDecodeError "Invalid character") ∧
    2 ≤ (verifying (plainEnv fourNodes malformedFirst ⟨∅⟩)
      (reshareVerifies (plainEnv fourNodes malformedFirst ⟨∅⟩) fourNodes ∅ ⟨1, 1⟩)
      malformedFirst.dealings.toList).length ∧
    (∃ e, reshareKeyDealings (plainEnv fourNodes malformedFirst ⟨∅⟩) fourNodes ∅ ⟨1, 1⟩
      malformedFirst = .error e) ∧
    generateKey (plainEnv fourNodes malformedFirst ⟨∅⟩) [] =
      .error (.error (.hexDecodeError "Invalid character")) [] ∧
    generateReshareKey (plainEnv fourNodes malformedFirst ⟨∅⟩) [] =
      .error (.error (.hexDecodeError "Invalid character")) [] :=
  ⟨by decide +kernel, by decide +kernel, by decide +kernel, ⟨_, rfl⟩, rfl, rfl⟩

end Nidkg.Proof
