import Mathlib.Data.List.TakeWhile
import XPathTree.Proofs.Declaration

/-! # Names split at the first colon

Splitting a written name loses nothing, so two names that are split alike were written alike.
The other way round, a name comes back from the text that it is written as just if the first
colon in this text is the one behind its prefix. Those names are the ones that a split can make.
-/

namespace XPathTree.QName

/-- Whether the first colon that is written is the one behind the prefix. Without a prefix
there must be none. -/
def SplitAtFirst (name : QName) : Prop :=
  match name.pfx with
  | some pfx => ':' ∉ pfx.toList
  | none => ':' ∉ name.localPart.toList

/-! ## Splitting -/

theorem bne_colon_of_not_mem {text : String} (hnone : ':' ∉ text.toList) :
    ∀ c ∈ text.toList, (c != ':') = true := by
  intro c hc
  rw [bne_iff_ne]
  rintro rfl
  exact hnone hc

/-- A name without a colon has no prefix. -/
theorem parse_of_not_mem {written : String} (hnone : ':' ∉ written.toList)
    (uri : Option String) : parse written uri = ⟨none, written, uri⟩ := by
  rw [parse, List.dropWhile_eq_nil_iff.mpr (bne_colon_of_not_mem hnone)]

/-- What is written before the first colon is the prefix. -/
theorem parse_append {pfx : String} (hpfx : ':' ∉ pfx.toList) (localPart : String)
    (uri : Option String) :
    parse (pfx ++ ":" ++ localPart) uri = ⟨some pfx, localPart, uri⟩ := by
  have hwritten : (pfx ++ ":" ++ localPart).toList = pfx.toList ++ ':' :: localPart.toList := by
    simp [String.toList_append]
  have hall := bne_colon_of_not_mem hpfx
  rw [parse, hwritten, List.dropWhile_append_of_pos hall, List.takeWhile_append_of_pos hall,
    List.dropWhile_cons_of_neg (by simp), List.takeWhile_cons_of_neg (by simp), List.append_nil]
  simp only [String.ofList_toList]

theorem splitAtFirst_parse (written : String) (uri : Option String) :
    (parse written uri).SplitAtFirst := by
  by_cases hcolon : ':' ∈ written.toList
  · obtain ⟨before, rest, hsplit, hbefore⟩ := List.eq_append_cons_of_mem hcolon
    have hpfx : ':' ∉ (String.ofList before).toList := by rwa [String.toList_ofList]
    have hwritten : written = .ofList before ++ ":" ++ .ofList rest := by
      apply String.toList_injective
      simpa [String.toList_append] using hsplit
    rw [hwritten, parse_append hpfx]
    exact hpfx
  · rw [parse_of_not_mem hcolon]
    exact hcolon

/-! ## Writing and splitting again -/

theorem parse_toString {name : QName} (hname : name.SplitAtFirst) :
    parse name.toString name.uri = name := by
  obtain ⟨pfx, localPart, uri⟩ := name
  cases pfx with
  | none => exact parse_of_not_mem hname uri
  | some pfx => exact parse_append hname localPart uri

/-- Names that are split alike are written alike. -/
theorem parse_eq_parse_iff (written other : String) (uri otherUri : Option String) :
    parse written uri = parse other otherUri ↔ written = other ∧ uri = otherUri := by
  constructor
  · intro hsame
    have hwritten := congrArg toString hsame
    have huri := congrArg QName.uri hsame
    rw [toString_parse, toString_parse] at hwritten
    rw [uri_parse, uri_parse] at huri
    exact ⟨hwritten, huri⟩
  · rintro ⟨rfl, rfl⟩
    rfl

/-- What a split makes is written as it was, whatever the colons, and a name is made again of
what it is written as just if it can come from a split. -/
theorem parse_toString_inverse :
    (∀ written uri, (parse written uri).toString = written) ∧
      (∀ written other uri otherUri,
        parse written uri = parse other otherUri ↔ written = other ∧ uri = otherUri) ∧
      (∀ name : QName, parse name.toString name.uri = name ↔ name.SplitAtFirst) ∧
      ∀ name : QName, (∃ written uri, parse written uri = name) ↔ name.SplitAtFirst := by
  refine ⟨toString_parse, parse_eq_parse_iff, fun name => ⟨fun hsame => ?_, parse_toString⟩,
    fun name => ⟨?_, fun hname => ⟨_, _, parse_toString hname⟩⟩⟩
  · rw [← hsame]
    exact splitAtFirst_parse _ _
  · rintro ⟨written, uri, rfl⟩
    exact splitAtFirst_parse written uri

/-- A prefix with a colon is cut short. -/
example : parse (toString ⟨some "a:b", "c", none⟩) none = ⟨some "a", "b:c", none⟩ := by decide

end XPathTree.QName
