import PermitRing.Discipline
import PermitRing.Environment
import PermitRing.Log.Level
import PermitRing.Proofs.Text.Grammar

/-!
# Levels and disciplines as text

A level is configured by its name or by its number, with blanks around it or not; a discipline by
its name alone, and blanks around that are cut away only where it comes from the environment. The
two grammars of a level do not meet: a name has letters and no digits. So it makes no difference
that the number is tried first, nor that a number past the last one is refused in two ways, as a
number if it fits a word of eight bits and as a name if it does not.

## Main results

* `Log.Level.ofTrimmed?_eq_some_iff`, `ofText?_eq_some_iff` — the texts of a level;
* `Discipline.ofText?_eq_some_iff` — the texts of a discipline;
* `Environment.read?_eq_some_iff` — what blanks around a variable's value come to;
* `Text.reads_exactly` — the grammars, and that every name is read back in any letter case.
-/

namespace PermitRing

open Text

namespace Text

/-- A letter, a digit and a sign are in ASCII and not blank. -/
theorem plain_of_isAlphanum {c : Char} (h : c.isAlphanum = true ∨ c = '+') :
    isBlank c = false ∧ c.toNat < 128 := by
  have hcode : 43 = c.toNat ∨ 48 ≤ c.toNat ∧ c.toNat ≤ 57 ∨ 65 ≤ c.toNat ∧ c.toNat ≤ 90 ∨
      97 ≤ c.toNat ∧ c.toNat ≤ 122 := by
    rcases h with h | rfl
    · rw [Char.isAlphanum, Bool.or_eq_true, isAlpha_iff, isDigit_iff] at h
      tauto
    · exact .inl rfl
  simp [isBlank, blankRanges]
  omega

/-- A spelling of a word is no numeral. -/
theorem Variant.not_numeral {w s : List Char} {n : Nat} (h : Variant w s)
    (hw : ∀ a ∈ w, a.isLower = true) : ¬Numeral n s := by
  intro hn
  obtain ⟨c, hc, hdigit⟩ := hn.mem.1
  have halpha := h.mem hw c hc
  rw [isAlpha_iff] at halpha
  rw [isDigit_iff] at hdigit
  omega

end Text

/-! ### Levels -/

namespace Log.Level

theorem isLower_of_mem_name (l : Level) : ∀ a ∈ l.name.toList, a.isLower = true := by
  cases l <;> simp [name]

theorem mem_all (l : Level) : l ∈ all := by
  cases l <;> decide

theorem ofNumber_eq_iff {n : Nat} {l : Level} (hn : n ≤ 5) : ofNumber n = l ↔ n = l.number := by
  have hnumber : ∀ n < 6, (ofNumber n).number = n := by decide
  constructor
  · rintro rfl
    exact (hnumber n (Nat.lt_succ_of_le hn)).symm
  · rintro rfl
    exact ofNumber_number l

/-- **A level without blanks around it** is a spelling of its name or a numeral for its number. -/
theorem ofTrimmed?_eq_some_iff {s : List Char} {l : Level} :
    ofTrimmed? s = some l ↔ Variant l.name.toList s ∨ Numeral l.number s := by
  have hword : l.number < 2 ^ 8 := Nat.lt_of_le_of_lt l.number_le_five (by decide)
  have hname : findSpelled? name all s = some l ↔ Variant l.name.toList s := by
    rw [findSpelled?_eq_some_iff (by decide), spells_iff_variant (by cases l <;> simp [name])]
    exact and_iff_right l.mem_all
  rw [ofTrimmed?]
  cases hs : unsigned? 8 s with
  | none =>
    have hno : ¬Numeral l.number s := by
      intro hn
      rw [unsigned?_eq_some_iff.mpr ⟨hn, hword⟩] at hs
      cases hs
    simpa [hno] using hname
  | some n =>
    have hn : Numeral n s := (unsigned?_eq_some_iff.mp hs).1
    have hvariant : ¬Variant l.name.toList s := fun h => h.not_numeral l.isLower_of_mem_name hn
    have hnumeral : Numeral l.number s ↔ n = l.number := ⟨hn.unique, fun h => h ▸ hn⟩
    simp only [hvariant, hnumeral, false_or]
    split
    next hle => rw [Option.some.injEq, ofNumber_eq_iff hle]
    next hle => simpa using fun h : n = l.number => hle (h ▸ l.number_le_five)

/-- **A level** may have blanks around it. -/
theorem ofText?_eq_some_iff {s : String} {l : Level} :
    ofText? s = some l ↔
      ∃ t, Trims s.toList t ∧ (Variant l.name.toList t ∨ Numeral l.number t) := by
  rw [ofText?, ofTrimmed?_eq_some_iff]
  constructor
  · intro h
    exact ⟨_, trims_trimBlank s.toList, h⟩
  · rintro ⟨t, ht, h⟩
    rwa [trimBlank_eq_iff.mpr ht]

/-- What a level is read from consists of ASCII letters and digits and a sign, and not of a sign
alone. -/
theorem plain_of_ofTrimmed? {s : List Char} {l : Level} (h : ofTrimmed? s = some l) :
    (∃ c ∈ s, c.isAlphanum = true) ∧ ∀ c ∈ s, c.isAlphanum = true ∨ c = '+' := by
  rcases ofTrimmed?_eq_some_iff.mp h with h | h
  · have halpha := h.mem l.isLower_of_mem_name
    have hlength : s.length = l.name.toList.length := h.length_eq.symm
    obtain ⟨c, hc⟩ : ∃ c, c ∈ s := by
      refine List.exists_mem_of_ne_nil s fun hs => ?_
      rw [hs] at hlength
      cases l <;> cases hlength
    exact ⟨⟨c, hc, by simp [Char.isAlphanum, halpha c hc]⟩,
      fun c hc => .inl (by simp [Char.isAlphanum, halpha c hc])⟩
  · obtain ⟨⟨c, hc, hdigit⟩, hall⟩ := h.mem
    refine ⟨⟨c, hc, by simp [Char.isAlphanum, hdigit]⟩, fun c hc => ?_⟩
    exact (hall c hc).imp_left fun hdigit => by simp [Char.isAlphanum, hdigit]

end Log.Level

/-! ### Disciplines -/

namespace Discipline

theorem mem_all (d : Discipline) : d ∈ all := by
  cases d <;> decide

/-- **A discipline** is a spelling of its name. -/
theorem ofText?_eq_some_iff {s : String} {d : Discipline} :
    ofText? s = some d ↔ Variant d.name.toList s.toList := by
  rw [ofText?, findSpelled?_eq_some_iff (by decide), spells_iff_variant (by cases d <;> simp [name])]
  exact and_iff_right d.mem_all

theorem ofText?_ofList_eq_some_iff {t : List Char} {d : Discipline} :
    ofText? (String.ofList t) = some d ↔ Variant d.name.toList t := by
  rw [ofText?_eq_some_iff, String.toList_ofList]

end Discipline

/-! ### Values of variables -/

/-- **A variable is read** if its bytes are a text and the reader takes what is left of that text
between its blanks. -/
theorem Environment.read?_eq_some_iff {β : Type} {reader : List Char → Option β}
    {env : Environment} {key : String} {b : β} :
    env.read? reader key = some b ↔
      ∃ s t, env.text? key = some s ∧ Trims s.toList t ∧ reader t = some b := by
  rw [read?, Option.bind_eq_some_iff]
  constructor
  · rintro ⟨s, hs, hb⟩
    exact ⟨s, _, hs, trims_trimBlank s.toList, hb⟩
  · rintro ⟨s, t, hs, ht, hb⟩
    exact ⟨s, hs, trimBlank_eq_iff.mpr ht ▸ hb⟩

/-! ### What is read -/

namespace Text

/-- **Levels and disciplines are read from their texts and from nothing else.**

* A level is read from a text that, without the blanks at its ends, is a spelling of its name or a
  numeral for its number. So nothing is read from a numeral for a number past the last level, however
  long, from signs alone, or where there is a blank inside or a character outside ASCII.
* A discipline is read from a spelling of its name. As the value of a variable it may have blanks at
  its ends, and nothing else besides; a variable from which none is read leaves the default.
* A spelling of a displayed name is read back, and no two levels or disciplines share a text. -/
theorem reads_exactly :
    (∀ (s : String) (l : Log.Level), Log.Level.ofText? s = some l ↔
        ∃ t, Trims s.toList t ∧ (Variant l.name.toList t ∨ Numeral l.number t)) ∧
      (∀ (s : String) (t : List Char), Trims s.toList t →
        (∃ n, 5 < n ∧ Numeral n t) ∨ (∀ c ∈ t, c.isAlphanum = false) ∨
            (∃ c ∈ t, isBlank c = true ∨ 128 ≤ c.toNat) →
          Log.Level.ofText? s = none) ∧
      (∀ (s : String) (d : Discipline),
        Discipline.ofText? s = some d ↔ Variant d.name.toList s.toList) ∧
      (∀ (env : Environment) (key : String),
        (∀ d, env.read? (fun t => Discipline.ofText? (String.ofList t)) key = some d ↔
          ∃ s t, env.text? key = some s ∧ Trims s.toList t ∧ Variant d.name.toList t) ∧
        ∀ default, env.read (fun t => Discipline.ofText? (String.ofList t)) key default =
          (env.read? (fun t => Discipline.ofText? (String.ofList t)) key).getD default) ∧
      (∀ (l : Log.Level) (s : String), Variant l.name.toList s.toList →
        Log.Level.ofText? s = some l) ∧
      (∀ (l l' : Log.Level) (t : List Char), Variant l.name.toList t ∨ Numeral l.number t →
        Variant l'.name.toList t ∨ Numeral l'.number t → l = l') ∧
      ∀ (d d' : Discipline) (t : List Char), Variant d.name.toList t → Variant d'.name.toList t →
        d = d' := by
  refine ⟨fun s l => Log.Level.ofText?_eq_some_iff, fun s t ht hodd => ?_,
    fun s d => Discipline.ofText?_eq_some_iff, fun env key => ⟨fun d => ?_, fun _ => rfl⟩,
    fun l s h => ?_, fun l l' t h h' => ?_, fun d d' t h h' => ?_⟩
  · rw [Option.eq_none_iff_forall_ne_some]
    intro l hl
    rw [Log.Level.ofText?, trimBlank_eq_iff.mpr ht] at hl
    obtain ⟨⟨c, hc, halnum⟩, hplain⟩ := Log.Level.plain_of_ofTrimmed? hl
    rcases hodd with ⟨n, hn, hnum⟩ | hsigns | ⟨c, hc, hodd⟩
    · rcases Log.Level.ofTrimmed?_eq_some_iff.mp hl with h | h
      · exact h.not_numeral l.isLower_of_mem_name hnum
      · rw [hnum.unique h] at hn
        exact absurd l.number_le_five (Nat.not_le.mpr hn)
    · rw [hsigns c hc] at halnum
      cases halnum
    · obtain ⟨hblank, hascii⟩ := plain_of_isAlphanum (hplain c hc)
      rcases hodd with hb | hb
      · rw [hblank] at hb
        cases hb
      · exact absurd hascii (Nat.not_lt.mpr hb)
  · rw [Environment.read?_eq_some_iff]
    simp only [Discipline.ofText?_ofList_eq_some_iff]
  · have hread := Log.Level.ofTrimmed?_eq_some_iff.mpr (.inl h)
    have hplain : ∀ c ∈ s.toList, isBlank c = false := fun c hc =>
      (plain_of_isAlphanum ((Log.Level.plain_of_ofTrimmed? hread).2 c hc)).1
    have htrims : Trims s.toList s.toList :=
      ⟨⟨[], [], by simp, by simp, by simp⟩, fun c hc => hplain c (List.mem_of_mem_head? hc),
        fun c hc => hplain c (List.mem_of_mem_getLast? hc)⟩
    exact Log.Level.ofText?_eq_some_iff.mpr ⟨_, htrims, .inl h⟩
  · have hl := Log.Level.ofTrimmed?_eq_some_iff.mpr h
    have hl' := Log.Level.ofTrimmed?_eq_some_iff.mpr h'
    exact Option.some.inj (hl.symm.trans hl')
  · have hd := Discipline.ofText?_ofList_eq_some_iff.mpr h
    have hd' := Discipline.ofText?_ofList_eq_some_iff.mpr h'
    exact Option.some.inj (hd.symm.trans hd')

/-- A numeral with a sign, leading zeros and wide blanks around it; a number past the last level that
does not fit a word of eight bits; and a name in mixed letters, once with a blank in front. -/
theorem reads_exactly_disguised :
    Log.Level.ofText? "\u3000+0004\t" = some .debug ∧ Log.Level.ofText? "0256" = none ∧
      Discipline.ofText? "mPsC" = some .mpsc ∧ Discipline.ofText? " mpsc" = none := by
  obtain ⟨hlevel, hodd, hdiscipline, -⟩ := reads_exactly
  refine ⟨(hlevel _ _).mpr ⟨"+0004".toList, ?_, .inr ?_⟩, hodd _ "0256".toList ?_ (.inl ?_),
    (hdiscipline _ _).mpr ?_, Option.eq_none_iff_forall_ne_some.mpr fun d hd => ?_⟩
  · exact ⟨⟨['\u3000'], ['\t'], by simp, by simp [isBlank, blankRanges],
      by simp [isBlank, blankRanges]⟩, by simp [isBlank, blankRanges],
      by simp [isBlank, blankRanges]⟩
  · exact ⟨"0004".toList, by simp, by simp, by simp [decimal, Nat.ofDigits_cons, Log.Level.number],
      .inr rfl⟩
  · exact ⟨⟨[], [], by simp, by simp, by simp⟩, by simp [isBlank, blankRanges],
      by simp [isBlank, blankRanges]⟩
  · exact ⟨256, by decide, "0256".toList, by simp, by simp, by simp [decimal, Nat.ofDigits_cons],
      .inl rfl⟩
  · simp [Variant, Discipline.name]
  · have hlength := ((hdiscipline _ _).mp hd).length_eq
    cases d <;> cases hlength

end Text

end PermitRing
