import Mathlib.Data.String.Basic
import RegisterMachine.CommandLine.Standard

/-!
# What a setting asks for

A front end that reads levels may still be asked in two ways, and in the program's own words
when nobody asks. `Frontend.ReadsLevels.goesBy` puts the two together: **whichever way a level
is asked for, the filter in force goes by it**.

The standard front end does read levels (`Frontend.standard_readsLevels`). A setting is split
at its commas, and one without a comma, such as the name of a level, is a single word; the
directive of that word concerns every notice and decides alone.
-/

namespace RegisterMachine

/-! ## Splitting -/

namespace Text

open String in
/-- The search for a separator behind `l` reaches the end when there is none. -/
theorem splitOnAux_of_forall_ne {l r : List Char} {separator : String} {first : Char}
    (hfirst : Pos.Raw.get separator 0 = first) (h : ∀ c ∈ r, c ≠ first) :
    splitOnAux (ofList (l ++ r)) separator 0 ⟨utf8Len l⟩ 0 [] = [ofList (l ++ r)] := by
  induction r generalizing l with
  | nil =>
    rw [splitOnAux, if_pos ((atEnd_of_valid l []).mpr rfl)]
    simpa using extract_of_valid [] l []
  | cons c r ih =>
    obtain ⟨hc, hr⟩ := List.forall_mem_cons.mp h
    have hget : Pos.Raw.get (ofList (l ++ c :: r)) ⟨utf8Len l⟩ = c := get_of_valid l (c :: r)
    have hother : (c == Pos.Raw.get separator 0) = false := by
      rw [hfirst]
      exact beq_eq_false_iff_ne.mpr hc
    have hstay : (⟨utf8Len l⟩ : Pos.Raw).unoffsetBy 0 = ⟨utf8Len l⟩ := rfl
    rw [splitOnAux, if_neg (by rw [atEnd_of_valid]; simp), hget, if_neg (by rw [hother]; simp),
      hstay, next_of_valid l c r]
    simpa using ih (l := l ++ [c]) hr

/-- **A text without the first character of a separator is not split.** -/
theorem splitOn_of_forall_ne {text separator : String} {first : Char}
    (hfirst : String.Pos.Raw.get separator 0 = first) (hne : separator ≠ "")
    (h : ∀ c ∈ text.toList, c ≠ first) : text.splitOn separator = [text] := by
  rw [String.splitOn, if_neg (by simpa using hne)]
  simpa using splitOnAux_of_forall_ne (l := []) hfirst h

end Text

namespace CommandLine

/-! ## Levels -/

/-- No level matters less than the last one. -/
theorem Level.rank_le_trace (level : Level) : level.rank ≤ Level.trace.rank := by
  cases level <;> decide

namespace Frontend.ReadsLevels

variable {f : Frontend} {setting : Option String} {verbosity : Nat}

/-- **The filter in force goes by the level that was asked for.** -/
theorem goesBy (h : f.ReadsLevels) {level : Level} (hasks : f.Asks setting verbosity level) :
    GoesBy (f.filter setting verbosity) level := by
  cases hasks with
  | @named name hsetting hname =>
    obtain ⟨filter, hfilter, hgoes⟩ := h.named level name hname
    rw [Frontend.filter, hsetting, Option.bind_some, hfilter]
    exact hgoes
  | counted hsetting hlevel =>
    have hword : wordOfVerbosity verbosity = level.word := by
      rw [hlevel]
      unfold wordOfVerbosity
      split <;> rfl
    rw [Frontend.filter, hsetting, hword]
    exact h.own level

/-- With an empty setting it lets nothing through. -/
theorem silent (h : f.ReadsLevels) (verbosity : Nat) (n : Notice) :
    f.filter (some "") verbosity n = false := by
  obtain ⟨filter, hfilter, hsilent⟩ := h.empty
  rw [Frontend.filter, Option.bind_some, hfilter]
  exact hsilent n

end Frontend.ReadsLevels

/-! ## Settings of the standard front end -/

/-- The names of the levels are in small letters. -/
theorem Level.map_toLower_word (level : Level) : level.word.map Char.toLower = level.word := by
  rw [← String.toList_inj, String.toList_map]
  cases level <;> rfl

/-- No comma comes of writing a letter small. -/
theorem ne_comma_of_toLower {c : Char} (h : c.toLower ≠ ',') : c ≠ ',' := by
  rintro rfl
  exact h rfl

namespace Directive

/-- A setting without any word has no directives. -/
theorem ofSetting?_empty : ofSetting? "" = some [] := by
  unfold ofSetting?
  rw [Text.splitOn_of_forall_ne rfl (by decide) (by simp)]
  rfl

/-- **A setting that is a single word** has the directive of that word. -/
theorem ofSetting?_of_word {setting : String} (hcomma : ∀ c ∈ setting.toList, c ≠ ',')
    (hempty : setting ≠ "") : ofSetting? setting = (ofWord? setting).map ([·]) := by
  unfold ofSetting?
  rw [Text.splitOn_of_forall_ne (by decide) (by decide) hcomma,
    List.filter_cons_of_pos (by simpa using hempty), List.filter_nil, List.mapM_cons,
    List.mapM_nil]
  cases ofWord? setting <;> rfl

/-- **The name of a level, in any letter case, is a directive for that level**, and for
notices of any origin. -/
theorem ofSetting?_of_level {setting : String} {level : Level}
    (h : setting.map Char.toLower = level.word) :
    ofSetting? setting = some [{ threshold := some level }] := by
  have hsmall : setting.toList.map Char.toLower = level.word.toList := by
    rw [← String.toList_map, h]
  have hword : ofWord? setting = some { threshold := some level } := by
    unfold ofWord? Threshold.ofWord?
    rw [h]
    cases level <;> rfl
  rw [ofSetting?_of_word, hword, Option.map_some]
  · intro c hc
    refine ne_comma_of_toLower fun hcomma => ?_
    have hmem : ',' ∈ level.word.toList := by
      rw [← hsmall, ← hcomma]
      exact List.mem_map_of_mem hc
    cases level <;> revert hmem <;> decide
  · rintro rfl
    cases level <;> revert hsmall <;> decide

/-- **A directive for notices of any origin, and no other, makes a filter that goes by its
level.** -/
theorem goesBy_filter (level : Level) :
    Frontend.GoesBy (filter [{ threshold := some level }]) level := by
  intro n
  have hdeciding : deciding? [{ threshold := some level }] n
      = some { threshold := some level } := rfl
  rw [filter, hdeciding]
  exact decide_eq_true_iff

end Directive

/-- **The standard front end reads levels.** -/
theorem Frontend.standard_readsLevels : Frontend.standard.ReadsLevels where
  own level := by
    show GoesBy (Directive.filter ((Directive.ofSetting? level.word).getD [])) level
    rw [Directive.ofSetting?_of_level level.map_toLower_word]
    exact Directive.goesBy_filter level
  named level name hname :=
    ⟨_, congrArg (Option.map Directive.filter) (Directive.ofSetting?_of_level hname),
      Directive.goesBy_filter level⟩
  empty :=
    ⟨_, congrArg (Option.map Directive.filter) Directive.ofSetting?_empty, fun _ => rfl⟩

end CommandLine

end RegisterMachine
