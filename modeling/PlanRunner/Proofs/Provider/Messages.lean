import Mathlib.Data.List.DropRight
import Mathlib.Logic.Function.Iterate
import PlanRunner.Provider.Messages

/-!
# PlanRunner — the address of the messages format

An address may be configured with slashes and versions behind it, in any order. The slashes at
its very end are dropped, then the versions before them, and no more is looked at: a slash that
stands before a version stays. So the address that is left is the bare one exactly if all
versions come before all slashes.

* `Text.trimEnd_of_not_suffix`, `Text.trimEnd_append_replicate` — what is trimmed at an end;
* `Messages.written`, `Messages.exists_written` — every address is a bare one with endings;
* `Messages.baseOf_written` — which of the endings stay (`Messages.kept`);
* `Messages.baseOf_settled_iff` — when nothing stays, and what holds exactly then.
-/

namespace PlanRunner

-- ---------------------------------------------------------------------------
-- Trimming.
-- ---------------------------------------------------------------------------

namespace Text

/-- Repetitions of a word are dropped as long as the count lasts. -/
theorem dropRepeats_append {word rest : List Char} (h : ¬ word <+: rest) {n m : Nat} (hm : n ≤ m) :
    dropRepeats word m ((List.replicate n word).flatten ++ rest) = rest := by
  -- one repetition after the other, as long as there is fuel
  induction n generalizing m with
  | zero =>
    cases m with
    | zero => rfl
    | succ m => simp [dropRepeats, List.isPrefixOf_iff_prefix, h]
  | succ n ih =>
    obtain ⟨m, rfl⟩ : ∃ m', m = m' + 1 := ⟨m - 1, by omega⟩
    rw [dropRepeats, List.replicate_succ, List.flatten_cons, List.append_assoc, if_pos (by simp),
      List.drop_left]
    exact ih (by omega)

/-- Behind a text that does not end in a word, its repetitions are what is trimmed. -/
theorem trimEnd_append_replicate {word : List Char} {s : String} (h : ¬ word <:+ s.toList) (n : Nat) :
    trimEnd word (s ++ String.ofList (List.replicate n word).flatten) = s := by
  have hword : 0 < word.length := List.length_pos_iff.mpr fun hnil => h (hnil ▸ List.nil_suffix)
  have hcount : n ≤ (s ++ String.ofList (List.replicate n word).flatten).length := by
    rw [String.length_append, String.length_ofList, List.length_flatten, List.map_replicate,
      List.sum_replicate_nat]
    exact (Nat.le_mul_of_pos_right n hword).trans (Nat.le_add_left _ _)
  -- trimming at the end is dropping in front, of the text that is read backwards
  have hreverse : (s ++ String.ofList (List.replicate n word).flatten).toList.reverse =
      (List.replicate n word.reverse).flatten ++ s.toList.reverse := by
    simp [List.reverse_flatten]
  have hrest : ¬ word.reverse <+: s.toList.reverse := by rwa [List.reverse_prefix]
  rw [trimEnd, hreverse, dropRepeats_append hrest hcount, List.reverse_reverse, String.ofList_toList]

end Text

namespace Provider.Messages

-- ---------------------------------------------------------------------------
-- Addresses with endings.
-- ---------------------------------------------------------------------------

/-- What may stand behind an address. -/
inductive Ending where
  | slash
  | version
  deriving DecidableEq

def Ending.text : Ending → List Char
  | .slash => ['/']
  | .version => ['/', 'v', '1']

/-- An address that nothing stands behind. -/
def IsBare (address : String) : Prop := ∀ e : Ending, ¬ e.text <:+ address.toList

/-- An address with endings behind it. -/
def written (bare : String) (endings : List Ending) : String :=
  bare ++ String.ofList (endings.flatMap Ending.text)

/-- The endings that stay: without the slashes at the end and then without the versions. -/
def kept (endings : List Ending) : List Ending :=
  (endings.rdropWhile (· = .slash)).rdropWhile (· = .version)

section
variable {bare : String} {endings : List Ending} {e : Ending}

@[simp] theorem written_nil (bare : String) : written bare [] = bare := by
  simp [written]

/-- Endings are written one after the other. -/
theorem written_append (bare : String) (endings more : List Ending) :
    written bare (endings ++ more) = written (written bare endings) more := by
  simp [written, String.append_assoc]

/-- The same ending a number of times. -/
theorem written_replicate (bare : String) (n : Nat) (e : Ending) :
    written bare (List.replicate n e) = bare ++ String.ofList (List.replicate n e.text).flatten := by
  rw [written, List.flatMap_def, List.map_replicate]

/-- What is written is as long as its parts. -/
theorem length_written (bare : String) (endings : List Ending) :
    (written bare endings).length = bare.length + (endings.flatMap Ending.text).length := by
  rw [written, String.length_append, String.length_ofList]

/-- No ending is empty. -/
theorem Ending.length_text_pos (e : Ending) : 0 < e.text.length := by
  cases e <;> decide

/-- Neither ending ends in the other. -/
theorem Ending.eq_of_suffix {f : Ending} (h : e.text <:+ f.text) : e = f := by
  revert h
  cases e <;> cases f <;> decide

/-- A text ends in one ending only: one of them ends in a slash and the other does not. -/
theorem Ending.eq_of_suffix_of_suffix {f : Ending} {cs : List Char} (he : e.text <:+ cs)
    (hf : f.text <:+ cs) : e = f :=
  (List.suffix_or_suffix_of_suffix he hf).elim Ending.eq_of_suffix fun h =>
    (Ending.eq_of_suffix h).symm

/-- A written address ends in its last ending. -/
theorem suffix_written_iff (hbare : IsBare bare) :
    e.text <:+ (written bare endings).toList ↔ endings.getLast? = some e := by
  -- the last ending is what the text ends in; without endings it is the bare address
  induction endings using List.reverseRecOn with
  | nil => simpa using hbare e
  | append_singleton endings f _ =>
    have hf : f.text <:+ (written bare (endings ++ [f])).toList :=
      ⟨(written bare endings).toList, by simp [written]⟩
    rw [List.getLast?_concat, Option.some.injEq]
    constructor
    · exact fun he => Ending.eq_of_suffix_of_suffix hf he
    · rintro rfl
      exact hf

/-- Every address is a bare one with endings behind it. -/
theorem exists_written (address : String) :
    ∃ bare endings, IsBare bare ∧ address = written bare endings := by
  induction hn : address.length using Nat.strong_induction_on generalizing address with
  | _ n ih =>
    -- strong induction on the length: an ending is taken off, if there is one
    by_cases h : IsBare address
    · exact ⟨address, [], h, (written_nil address).symm⟩
    · obtain ⟨e, cs, hcs⟩ := not_forall_not.mp h
      obtain rfl : address = written (String.ofList cs) [e] := by
        rw [← String.ofList_toList (s := address), ← hcs]
        simp [written]
      have hshorter : (String.ofList cs).length < n := by
        rw [← hn, length_written, List.flatMap_singleton]
        exact Nat.lt_add_of_pos_right e.length_text_pos
      obtain ⟨bare, endings, hbare, hcs⟩ := ih _ hshorter (String.ofList cs) rfl
      exact ⟨bare, endings ++ [e], hbare, by rw [written_append, ← hcs]⟩

-- ---------------------------------------------------------------------------
-- What stays.
-- ---------------------------------------------------------------------------

/-- What is dropped from the end is not found there. -/
theorem getLast?_rdropWhile (endings : List Ending) (e : Ending) :
    (endings.rdropWhile (· = e)).getLast? ≠ some e := by
  intro h
  obtain ⟨hne, hlast⟩ := List.mem_getLast?_eq_getLast h
  exact List.rdropWhile_last_not _ _ hne (by simp [← hlast])

/-- The endings of one kind at the very end. -/
theorem exists_rdropWhile_append (endings : List Ending) (e : Ending) :
    ∃ n, endings = endings.rdropWhile (· = e) ++ List.replicate n e := by
  have hlast : endings.rtakeWhile (· = e) = List.replicate _ e :=
    List.eq_replicate_of_mem fun f hf => by simpa using List.mem_rtakeWhile_imp hf
  exact ⟨_, hlast ▸ List.rdropWhile_append_rtakeWhile.symm⟩

/-- Of one kind, exactly the endings at the very end are trimmed. -/
theorem trimEnd_written (hbare : IsBare bare) (endings : List Ending) (e : Ending) :
    Text.trimEnd e.text (written bare endings) = written bare (endings.rdropWhile (· = e)) := by
  obtain ⟨n, hn⟩ := exists_rdropWhile_append endings e
  have hlast : ¬ e.text <:+ (written bare (endings.rdropWhile (· = e))).toList := by
    rw [suffix_written_iff hbare]
    exact getLast?_rdropWhile endings e
  conv_lhs => rw [hn]
  rw [written_append, written_replicate, Text.trimEnd_append_replicate hlast]

/-- The base of an address keeps some of its endings. -/
theorem baseOf_written (hbare : IsBare bare) (endings : List Ending) :
    baseOf (written bare endings) = written bare (kept endings) :=
  (congrArg (Text.trimEnd Ending.version.text) (trimEnd_written hbare endings .slash)).trans
    (trimEnd_written hbare _ .version)

/-- What stays stands first, and so it is after each of the two cuts. -/
theorem rdropWhile_initial (endings : List Ending) (e : Ending) :
    endings.rdropWhile (· = e) <+: endings := List.rdropWhile_prefix _ _

/-- The endings that are kept are the first ones. -/
theorem kept_initial (endings : List Ending) : kept endings <+: endings :=
  (rdropWhile_initial _ .version).trans (rdropWhile_initial endings .slash)

/-- What stays does not end in a version, so it ends in a slash if anything stays. -/
theorem getLast?_kept : (kept endings).getLast? = some .slash ↔ kept endings ≠ [] := by
  rw [← List.getLast?_isSome]
  cases h : (kept endings).getLast? with
  | none => simp
  | some e =>
    cases e with
    | slash => simp
    | version => exact absurd h (getLast?_rdropWhile _ .version)

/-- Of any endings at least the last one goes. -/
theorem length_kept_lt (h : endings ≠ []) : (kept endings).length < endings.length := by
  refine lt_of_le_of_ne (kept_initial endings).length_le fun hlength => ?_
  have hkept : kept endings = endings := (kept_initial endings).eq_of_length hlength
  -- all stays, so no slash at the end was dropped, but a slash is what any endings kept end in
  have hslashes : endings.rdropWhile (· = .slash) = endings := by
    have hinitial := rdropWhile_initial endings .slash
    refine hinitial.eq_of_length (le_antisymm hinitial.length_le ?_)
    rw [← hlength]
    exact (rdropWhile_initial _ .version).length_le
  have hlast : (kept endings).getLast? = some .slash := getLast?_kept.mpr (by rwa [hkept])
  rw [hkept, ← hslashes] at hlast
  exact getLast?_rdropWhile endings .slash hlast

/-- Nothing stays exactly if all versions come before all slashes. -/
theorem kept_eq_nil_iff : kept endings = [] ↔
    ∃ versions slashes, endings = List.replicate versions .version ++ List.replicate slashes .slash := by
  constructor
  · intro h
    obtain ⟨slashes, hslashes⟩ := exists_rdropWhile_append endings .slash
    obtain ⟨versions, hversions⟩ := exists_rdropWhile_append (endings.rdropWhile (· = .slash)) .version
    rw [← kept, h, List.nil_append] at hversions
    exact ⟨versions, slashes, hversions ▸ hslashes⟩
  · rintro ⟨versions, slashes, rfl⟩
    simp [kept, List.rdropWhile]

/-- Writing endings changes the text, unless there are none. -/
theorem written_eq_self_iff : written bare endings = bare ↔ endings = [] := by
  refine ⟨fun h => ?_, fun h => h ▸ written_nil bare⟩
  have hlength := congrArg String.length h
  rw [length_written] at hlength
  cases endings with
  | nil => rfl
  | cons e rest =>
    rw [List.flatMap_cons, List.length_append] at hlength
    have := e.length_text_pos
    omega

/-- The base of an address is the address only if it has no endings. -/
theorem written_kept_eq_iff : written bare (kept endings) = written bare endings ↔ endings = [] := by
  constructor
  · intro h
    obtain ⟨rest, hrest⟩ := kept_initial endings
    have hself : written (written bare (kept endings)) rest = written bare (kept endings) := by
      rw [← written_append, hrest, h]
    rw [written_eq_self_iff.mp hself, List.append_nil] at hrest
    by_contra hne
    exact (length_kept_lt hne).ne (congrArg List.length hrest)
  · rintro rfl
    rfl

/-- Dropped again and again, nothing stays behind an address. -/
theorem iterate_baseOf (hbare : IsBare bare) {rounds : Nat} (h : endings.length ≤ rounds) :
    baseOf^[rounds] (written bare endings) = bare := by
  -- each round takes off an ending at least, if one is left
  induction rounds generalizing endings with
  | zero => rw [List.length_eq_zero_iff.mp (Nat.le_zero.mp h), Function.iterate_zero_apply, written_nil]
  | succ rounds ih =>
    rw [Function.iterate_succ_apply, baseOf_written hbare]
    refine ih ?_
    by_cases hnil : endings = []
    · rw [hnil]
      exact Nat.zero_le _
    · have := length_kept_lt hnil
      omega

end

/-- **When the address is the bare one.** Every address is a bare one with slashes and versions
behind it, and the address that is kept never ends in a version. It does not end in a slash, it
stays as it is when it is taken again, and requests go to the bare address exactly if in the
configured address all versions come before all slashes. Taken as often as there are endings, it
is the bare one in any case. -/
theorem baseOf_settled_iff (url : String) :
    (∃ bare endings, IsBare bare ∧ url = written bare endings) ∧
    ∀ bare endings, IsBare bare → url = written bare endings →
      baseOf url = written bare (kept endings) ∧
      (kept endings = [] ↔ ∃ versions slashes,
        endings = List.replicate versions .version ++ List.replicate slashes .slash) ∧
      ¬ Ending.version.text <:+ (baseOf url).toList ∧
      (¬ Ending.slash.text <:+ (baseOf url).toList ↔ kept endings = []) ∧
      (baseOf (baseOf url) = baseOf url ↔ kept endings = []) ∧
      (∀ apiKey model prompt, (request (baseOf url) apiKey model prompt).url = bare ++ "/v1/messages" ↔
        kept endings = []) ∧
      ∀ rounds, endings.length ≤ rounds → baseOf^[rounds] url = bare := by
  refine ⟨exists_written url, fun bare endings hbare hurl => ?_⟩
  obtain rfl := hurl
  rw [baseOf_written hbare, baseOf_written hbare, suffix_written_iff hbare, suffix_written_iff hbare,
    getLast?_kept, not_not]
  refine ⟨rfl, kept_eq_nil_iff, getLast?_rdropWhile _ .version, Iff.rfl, written_kept_eq_iff,
    fun apiKey model prompt => ?_, fun rounds h => iterate_baseOf hbare h⟩
  exact (String.append_left_inj _).trans written_eq_self_iff

/-- An address does not settle at once: a slash that stands before a version stays behind it. -/
theorem not_baseOf_settles :
    ¬ ∀ url, ¬ Ending.slash.text <:+ (baseOf url).toList ∧
        ¬ Ending.version.text <:+ (baseOf url).toList ∧ baseOf (baseOf url) = baseOf url := by
  intro h
  have hbare : IsBare "https://proxy.local" := by
    intro e
    cases e <;> decide +kernel
  have hurl : "https://proxy.local//v1" = written "https://proxy.local" [.slash, .version] := by
    decide +kernel
  refine (h "https://proxy.local//v1").1 ?_
  rw [hurl, baseOf_written hbare, suffix_written_iff hbare]
  rfl

end Provider.Messages

end PlanRunner
