import Turnstile.Programs.Arguments

/-! Reading command-line arguments one by one. -/

namespace Turnstile.Arguments

variable {options : List Opt} {positionals : Positionals} {n : Nat} {rest : List String}
  {g g' : Given} {o : Opt}
  {arg : String}

/-- An argument that does not begin with a hyphen is no option. -/
private theorem plain_of_head? (h : arg.toList.head? ≠ some '-') :
    arg ≠ "--" ∧ "--".toList.isPrefixOf arg.toList = false ∧ isValue arg = true := by
  refine ⟨?_, ?_, by simp [isValue, h]⟩
  · rintro rfl
    exact h rfl
  · cases harg : arg.toList with
    | nil => rfl
    | cons x xs =>
      have hx : x ≠ '-' := by simpa [harg] using h
      simp [List.isPrefixOf, hx.symm]

/-- A positional argument is added to the others. -/
theorem read_positional (h : arg.toList.head? ≠ some '-') (hroom : g.positionals.length < n) :
    read options (.atMost n) (arg :: rest) none g =
      read options (.atMost n) rest none { g with positionals := g.positionals ++ [arg] } := by
  obtain ⟨hdashes, hlong, hvalue⟩ := plain_of_head? h
  have hallow : (Positionals.atMost n).allow (g.positionals.length + 1) = true :=
    decide_eq_true hroom
  rw [read, if_neg hdashes]
  simp only [hlong, hvalue, hallow, reduceCtorEq, Bool.false_eq_true, if_false, if_true]

/-- A positional argument ends the options before it. -/
theorem read_stop (h : arg.toList.head? ≠ some '-') :
    read options .stop (arg :: rest) none g = .given g (arg :: rest) := by
  obtain ⟨hdashes, hlong, hvalue⟩ := plain_of_head? h
  rw [read, if_neg hdashes]
  simp only [hlong, hvalue, Bool.false_eq_true, if_false, if_true]

/-- The name of a long option ends at the first equals sign, after which its value stands. -/
theorem longParts_attached {name : String} (hname : '=' ∉ name.toList) (value : String) :
    longParts ("--" ++ name ++ "=" ++ value) = (name, some value) := by
  have hne : ∀ x ∈ name.toList, decide (x ≠ '=') = true := fun x hx =>
    decide_eq_true fun he => hname (he ▸ hx)
  have hsplit : ("--" ++ name ++ "=" ++ value).toList.drop 2 =
      name.toList ++ '=' :: value.toList := by
    simp
  unfold longParts
  simp only [hsplit]
  rw [List.takeWhile_append_of_pos hne, List.dropWhile_append_of_pos hne]
  simp

/-- An option with its value attached is one argument. -/
theorem read_attached (name : String) {value : String} (hname : '=' ∉ name.toList)
    (ho : options.find? (fun o => o.long = name) = some o)
    (hkind : o.kind = .single ∨ o.kind = .repeated) (hadd : g.add? o value = some g') :
    read options positionals (("--" ++ name ++ "=" ++ value) :: rest) none g =
      read options positionals rest none g' := by
  have hdashes : "--" ++ name ++ "=" ++ value ≠ "--" := by
    intro h
    have hlength := congrArg String.length h
    simp only [String.length_append] at hlength
    have : "=".length = 1 := rfl
    omega
  have hlong : "--".toList.isPrefixOf ("--" ++ name ++ "=" ++ value).toList = true := by
    simp [List.isPrefixOf]
  rw [read, if_neg hdashes, if_pos hlong, longParts_attached hname]
  simp only [ho]
  rcases hkind with hkind | hkind <;> simp only [hkind, Option.getD_some, hadd]

theorem add?_repeated (hkind : o.kind = .repeated) (g : Given) (value : String) :
    g.add? o value = some { g with options := g.options ++ [(o.long, value)] } := by
  have hfits : o.fits value = true := by simp [Opt.fits, hkind]
  unfold Given.add?
  rw [if_neg (by simp [hfits, hkind])]

/-- The values of an option that may be repeated are read in order. -/
theorem read_repeated (name : String) (hname : '=' ∉ name.toList)
    (ho : options.find? (fun o => o.long = name) = some o) (hkind : o.kind = .repeated)
    (values : List String) (g : Given) :
    read options positionals (values.map (fun value => "--" ++ name ++ "=" ++ value)) none g =
      .given { g with options := g.options ++ values.map (fun value => (o.long, value)) } [] := by
  induction values generalizing g with
  | nil => simp [read]
  | cons value values ih =>
    rw [List.map_cons, read_attached name hname ho (.inr hkind) (add?_repeated hkind g value), ih]
    simp

end Turnstile.Arguments
