import FactCast.Store.Transformation

/-! The script of a transformation chain.

A step is run by its script, which defines `transform`. A chain has one script for all
steps (`createCompositeJS`): their scripts become the elements of an array, and are
called one after the other. The scripts are joined as texts. So a script has to be the
text of one function there, where by itself it may be anything that defines one: what
follows the function is an element of the array that does not parse, and a comment that
goes on to the end of the script makes one of what comes after it.

A script that runs gets the document as a map, which it changes. What is no object is no
map, and the script is not run; so a chain of steps without code, which has a script, throws
at a document that the steps by themselves leave as it is.

The engine is a parameter: how it reads a function off the front of a text, of which is
known that it does not depend on what follows, and what it does to a map when the
function is applied. What is around functions in a script is read here (`readScript`).
Where every step has the text of one function, the chain is the composition of its steps
(`chain_composes`). -/
namespace FactCast.CompositeScript

/-- By its name and its text. -/
structure Function where
  name : String
  text : List Char
deriving DecidableEq

/-- The function at the end of the script of a chain. -/
def runSteps : Function where
  name := "transform"
  text := "function transform(event) \x7b steps.forEach( function(f)\x7bf(event)\x7d ); \x7d".toList

/-- What a script gets. -/
abbrev JsonMap := List (String × Jsonb)

/-- A function changes a map, or throws. Functions are read that are declared: the text of one
begins with the keyword, which arrow functions and those that are `async` do not. -/
structure Engine where
  function : List Char → Option (Function × List Char)
  apply : Function → JsonMap → Option JsonMap
  function_start : ∀ text f rest, function text = some (f, rest) → ∃ more, text = 'f' :: more
  function_append : ∀ text f rest more, function text = some (f, rest) →
    function (text ++ more) = some (f, rest ++ more)
  function_runSteps : function runSteps.text = some (runSteps, [])

/-! ### White space and comments -/

def isLineTerminator (c : Char) : Bool := [0x0a, 0x0d, 0x2028, 0x2029].contains c.toNat

def isSpace (c : Char) : Bool :=
  isLineTerminator c || [0x09, 0x0b, 0x0c, 0x20, 0xa0, 0x1680, 0x202f, 0x205f, 0x3000, 0xfeff].contains c.toNat ||
    decide (0x2000 ≤ c.toNat ∧ c.toNat ≤ 0x200a)

inductive Mode where
  | code
  /-- In a comment to the end of the line. -/
  | line
  | block

/-- What is left after white space and comments, none if a comment is not closed. -/
def skip : Mode → List Char → Option (List Char)
  | .code, [] => some []
  | .code, '/' :: '/' :: rest => skip .line rest
  | .code, '/' :: '*' :: rest => skip .block rest
  | .code, c :: rest => if isSpace c then skip .code rest else some (c :: rest)
  | .line, [] => some []
  | .line, c :: rest => if isLineTerminator c then skip .code rest else skip .line rest
  | .block, [] => none
  | .block, '*' :: '/' :: rest => skip .code rest
  | .block, _ :: rest => skip .block rest

/-! ### Scripts -/

/-- What a script defines, the last function first. -/
structure Globals where
  functions : List Function
  steps : Option (List Function)

def declaration : List Char := "var steps = [".toList

section Read
variable (engine : Engine)

/-- The elements of an array, and what is left after it. An element that is left out is not
iterated. -/
def readElements : Nat → List Char → Option (List Function × List Char)
  | 0, _ => none
  | fuel + 1, text =>
    match skip .code text with
    | none => none
    | some [] => none
    | some (']' :: rest) => some ([], rest)
    | some (',' :: rest) => readElements fuel rest
    | some text =>
      match engine.function text with
      | none => none
      | some (f, rest) =>
        match skip .code rest with
        | some (',' :: rest) => (readElements fuel rest).map fun (fs, rest) => (f :: fs, rest)
        | some (']' :: rest) => some ([f], rest)
        | _ => none

/-- A script of functions that are declared, and of the array. It is not read if there is
anything else in it, which the engine may well run. -/
def readScript : Nat → List Char → Globals → Option Globals
  | 0, _, _ => none
  | fuel + 1, text, globals =>
    match skip .code text with
    | none => none
    | some [] => some globals
    | some (';' :: rest) => readScript fuel rest globals
    | some text =>
      if declaration.isPrefixOf text then
        match readElements engine fuel (text.drop declaration.length) with
        | some (fs, rest) => readScript fuel rest { globals with steps := some fs }
        | none => none
      else
        match engine.function text with
        | some (f, rest) => readScript fuel rest { globals with functions := f :: globals.functions }
        | none => none

def getOrCreateFor (js : String) : Option Globals := readScript engine (js.toList.length + 1) js.toList ⟨[], none⟩

/-- The functions of the steps are called with the document one after the other. Without the
array it throws. -/
def call (globals : Globals) (f : Function) (event : JsonMap) : Option JsonMap :=
  if f = runSteps then
    globals.steps.bind fun steps => steps.foldlM (fun event f => engine.apply f event) event
  else engine.apply f event

def invoke (globals : Globals) (functionName : String) (event : JsonMap) : Option JsonMap :=
  (globals.functions.find? fun f => f.name == functionName).bind fun f => call engine globals f event

/-- `FactCastJson.convertValue(input, Map.class)`: of the other documents, null becomes null, which
is refused as an argument, and the rest cannot be converted. -/
def convertValue : Jsonb → Option JsonMap
  | .obj members => some members
  | _ => none

def runJSTransformation (input : Jsonb) (js : String) : Option Jsonb :=
  (getOrCreateFor engine js).bind fun globals =>
    (convertValue input).bind fun jsonAsMap => (invoke engine globals "transform" jsonAsMap).map .obj

end Read

/-! ### Transformations -/

structure Transformation where
  key : TransformationKey
  fromVersion : Int
  toVersion : Int
  transformationCode : Option String

structure TransformationChain extends Transformation where
  id : String

/-- `JsTransformer.transform`, none where it throws. -/
def transform (engine : Engine) (t : Transformation) (input : Jsonb) : Option Jsonb :=
  match t.transformationCode with
  | none => some input
  | some js => runJSTransformation engine input js

def createCompositeJS (list : List Transformation) : String :=
  let code := list.filterMap Transformation.transformationCode
  "var steps = [" ++ ",".intercalate code ++ "]; " ++
    "function transform(event) \x7b steps.forEach( function(f)\x7bf(event)\x7d ); \x7d"

/-- None if an argument is illegal. -/
def TransformationChain.of (key : TransformationKey) (orderedListOfSteps : List Transformation) (id : String) :
    Option TransformationChain :=
  match orderedListOfSteps with
  | [] => none
  | first :: rest =>
    if orderedListOfSteps.all fun t => key == t.key then
      some {
        id
        key
        fromVersion := first.fromVersion
        toVersion := ((first :: rest).getLast (List.cons_ne_nil first rest)).toVersion
        transformationCode := some (createCompositeJS orderedListOfSteps) }
    else none

/-! ### What is expected -/

/-- The steps are executed one after the other. -/
def execute (engine : Engine) (steps : List Transformation) (input : Jsonb) : Option Jsonb :=
  steps.foldlM (fun document t => transform engine t document) input

/-- The function of a script that consists of one function, which is not the one that a chain ends
with; white space and closed comments apart. -/
def soleFunction (engine : Engine) (js : String) : Option Function :=
  match (skip .code js.toList).bind engine.function with
  | some (f, rest) =>
    if f.name = "transform" ∧ f ≠ runSteps ∧ skip .code (rest ++ [',']) = some [','] then some f else none
  | none => none

section Proofs
variable {engine : Engine} {mode : Mode} {text rest more : List Char} {c : Char} {f : Function}
  {codes : List String} {js : String} {fuel : Nat} {globals : Globals}

/-! ### What is skipped -/

/-- A character that is neither white space nor the beginning of a comment. -/
def significant (c : Char) : Bool := !isSpace c && c != '/'

theorem skip_of_significant (h : significant c = true) : skip .code (c :: rest) = some (c :: rest) := by
  rw [significant, Bool.and_eq_true, Bool.not_eq_true', bne_iff_ne] at h
  rw [skip, if_neg (by simp [h.1])]
  · exact fun _ hc _ => h.2 hc
  · exact fun _ hc _ => h.2 hc

/-- What follows is not looked at. -/
theorem skip_append (hc : c ≠ '/') (h : skip mode text = some (c :: rest)) :
    skip mode (text ++ more) = some (c :: rest ++ more) := by
  fun_induction skip mode text with
  | case1 => exact nomatch h
  | case2 rest' ih => exact ih h
  | case3 rest' ih => exact ih h
  | case4 c' rest' hline hblock hspace ih =>
    have hslash : c' ≠ '/' := fun heq => absurd (heq ▸ hspace) (by decide)
    rw [List.cons_append, skip, if_pos hspace]
    · exact ih h
    · exact fun _ heq _ => hslash heq
    · exact fun _ heq _ => hslash heq
  | case5 c' rest' hline hblock hspace =>
    injection h with h
    injection h with heq hrest
    subst heq hrest
    rw [List.cons_append, skip, if_neg hspace]
    · exact fun _ heq _ => hc heq
    · exact fun _ heq _ => hc heq
  | case6 => exact nomatch h
  | case7 c' rest' hend ih =>
    rw [List.cons_append, skip, if_pos hend]
    exact ih h
  | case8 c' rest' hend ih =>
    rw [List.cons_append, skip, if_neg hend]
    exact ih h
  | case9 => exact nomatch h
  | case10 rest' ih => exact ih h
  | case11 c' rest' hclose ih =>
    rw [List.cons_append, skip]
    · exact ih h
    · intro r hstar hslash
      cases rest' with
      | nil => exact nomatch h
      | cons d rest'' =>
        rw [List.cons_append] at hslash
        injection hslash with hd _
        exact hclose rest'' hstar (by rw [hd])

theorem skip_space (h : isSpace c = true) : skip .code (c :: rest) = skip .code rest := by
  have hslash : c ≠ '/' := fun heq => absurd (heq ▸ h) (by decide)
  rw [skip, if_pos h]
  · exact fun _ heq _ => hslash heq
  · exact fun _ heq _ => hslash heq

/-- A comment is not closed by two characters that are not next to each other. -/
theorem skip_block_append (h : ∀ r, c = '*' → rest = '/' :: r → False) (hmore : more.head? ≠ some '/') :
    skip .block (c :: rest ++ more) = skip .block (rest ++ more) := by
  rw [List.cons_append, skip]
  intro r hstar hslash
  cases rest with
  | nil => exact hmore (by rw [← List.nil_append more, hslash]; rfl)
  | cons d rest' =>
    injection hslash with hd _
    exact h rest' hstar (by rw [hd])

/-- After a text after which a comma is one, any such character is one, and nothing is nothing. -/
theorem skip_closed (hclosed : skip mode (rest ++ [',']) = some [',']) : skip mode rest = some [] ∧
    ∀ c more, significant c = true → skip mode (rest ++ c :: more) = some (c :: more) := by
  fun_induction skip mode rest with
  | case1 => exact ⟨rfl, fun c more hc => skip_of_significant hc⟩
  | case2 rest' ih => exact ih hclosed
  | case3 rest' ih => exact ih hclosed
  | case4 c' rest' hline hblock hspace ih =>
    rw [List.cons_append, skip_space hspace] at hclosed
    refine ⟨(ih hclosed).1, fun c more hc => ?_⟩
    rw [List.cons_append, skip_space hspace]
    exact (ih hclosed).2 c more hc
  | case5 c' rest' hline hblock hspace =>
    have hcomment : ∀ d r, d ≠ ',' → c' = '/' → rest' ++ [','] = d :: r → ∃ r', rest' = d :: r' := by
      intro d r hd _ heq
      cases rest' with
      | nil =>
        injection heq with heq _
        exact absurd heq.symm hd
      | cons d' r' =>
        injection heq with heq _
        exact ⟨r', by rw [heq]⟩
    rw [List.cons_append, skip, if_neg hspace] at hclosed
    · injection hclosed with hclosed
      injection hclosed with _ hnil
      exact absurd hnil (by simp)
    · intro r hslash heq
      obtain ⟨r', hr'⟩ := hcomment '/' r (by decide) hslash heq
      exact hline r' hslash hr'
    · intro r hslash heq
      obtain ⟨r', hr'⟩ := hcomment '*' r (by decide) hslash heq
      exact hblock r' hslash hr'
  | case6 => exact nomatch hclosed
  | case7 c' rest' hend ih =>
    rw [List.cons_append, skip, if_pos hend] at hclosed
    refine ⟨(ih hclosed).1, fun c more hc => ?_⟩
    rw [List.cons_append, skip, if_pos hend]
    exact (ih hclosed).2 c more hc
  | case8 c' rest' hend ih =>
    rw [List.cons_append, skip, if_neg hend] at hclosed
    refine ⟨(ih hclosed).1, fun c more hc => ?_⟩
    rw [List.cons_append, skip, if_neg hend]
    exact (ih hclosed).2 c more hc
  | case9 => exact nomatch hclosed
  | case10 rest' ih => exact ih hclosed
  | case11 c' rest' hclose ih =>
    rw [skip_block_append hclose (by decide)] at hclosed
    refine ⟨(ih hclosed).1, fun c more hc => ?_⟩
    have hslash : (c :: more).head? ≠ some '/' := fun heq => by
      rw [List.head?_cons, Option.some.injEq] at heq
      rw [heq] at hc
      exact absurd hc (by decide)
    rw [skip_block_append hclose hslash]
    exact (ih hclosed).2 c more hc

/-! ### Functions -/

/-- The script has this function, wherever it stands. -/
def Reads (engine : Engine) (js : String) (f : Function) : Prop :=
  ∃ rest, (∀ more, ∃ t, skip .code (js.toList ++ more) = some ('f' :: t) ∧
      engine.function ('f' :: t) = some (f, rest ++ more)) ∧
    skip .code rest = some [] ∧
    ∀ c more, significant c = true → skip .code (rest ++ c :: more) = some (c :: more)

theorem soleFunction_eq_some (h : soleFunction engine js = some f) :
    Reads engine js f ∧ f.name = "transform" ∧ f ≠ runSteps := by
  unfold soleFunction at h
  split at h
  · rename_i g rest hread
    rw [Option.ite_none_right_eq_some] at h
    obtain ⟨⟨hname, hne, hclosed⟩, hgf⟩ := h
    obtain rfl : g = f := Option.some.inj hgf
    obtain ⟨text, htext, hfunction⟩ := Option.bind_eq_some_iff.mp hread
    obtain ⟨t, rfl⟩ := engine.function_start _ _ _ hfunction
    obtain ⟨hend, hmore⟩ := skip_closed hclosed
    refine ⟨⟨rest, fun more => ⟨t ++ more, skip_append (by decide) htext, ?_⟩, hend, hmore⟩, hname, hne⟩
    exact engine.function_append _ _ _ more hfunction
  · exact nomatch h

theorem Reads.element (h : Reads engine js f) (hc : c = ',' ∨ c = ']') :
    ∃ t, skip .code (js.toList ++ c :: more) = some ('f' :: t) ∧
      ∃ rest, engine.function ('f' :: t) = some (f, rest) ∧ skip .code rest = some (c :: more) := by
  obtain ⟨rest, hread, _, hmore⟩ := h
  obtain ⟨t, hskip, hfunction⟩ := hread (c :: more)
  refine ⟨t, hskip, _, hfunction, hmore c more ?_⟩
  obtain rfl | rfl := hc <;> decide

/-- The scripts of the steps are the elements of the array. -/
theorem readElements_codes {fs : List Function} (h : List.Forall₂ (Reads engine) codes fs)
    (hfuel : codes.length < fuel) :
    readElements engine fuel ([','].intercalate (codes.map String.toList) ++ ']' :: more) = some (fs, more) := by
  induction h generalizing fuel with
  | nil =>
    cases fuel with
    | zero => exact nomatch hfuel
    | succ fuel => rfl
  | @cons js f codes fs hread hrest ih =>
    cases fuel with
    | zero => exact nomatch hfuel
    | succ fuel =>
      cases hrest with
      | nil =>
        obtain ⟨t, hskip, rest, hfunction, hclose⟩ := @Reads.element engine more ']' f js hread (.inr rfl)
        have htext : [','].intercalate ([js].map String.toList) ++ ']' :: more = js.toList ++ ']' :: more := by
          simp
        rw [htext]
        simp [readElements, hskip, hfunction, hclose]
      | @cons js' f' codes fs hread' hrest =>
        let others := [','].intercalate ((js' :: codes).map String.toList) ++ ']' :: more
        obtain ⟨t, hskip, rest, hfunction, hclose⟩ := @Reads.element engine others ',' f js hread (.inl rfl)
        have htext : [','].intercalate ((js :: js' :: codes).map String.toList) ++ ']' :: more =
            js.toList ++ ',' :: others := by
          simp [others, List.intercalate_cons_cons]
        have hothers : readElements engine fuel others = some (f' :: fs, more) :=
          ih (Nat.lt_of_succ_lt_succ hfuel)
        rw [htext]
        simp [readElements, hskip, hfunction, hclose, hothers]

/-! ### The two scripts -/

theorem call_of_ne (h : f ≠ runSteps) (event : JsonMap) : call engine globals f event = engine.apply f event :=
  if_neg h

theorem readScript_function {t : List Char} (hskip : skip .code text = some ('f' :: t))
    (hfunction : engine.function ('f' :: t) = some (f, rest)) : readScript engine (fuel + 1) text globals =
      readScript engine fuel rest { globals with functions := f :: globals.functions } := by
  have hstart : declaration.isPrefixOf ('f' :: t) = false := rfl
  simp [readScript, hskip, hstart, hfunction]

theorem readScript_declaration {fs : List Function} (h : readElements engine fuel text = some (fs, rest)) :
    readScript engine (fuel + 1) (declaration ++ text) globals =
      readScript engine fuel rest { globals with steps := some fs } := by
  have hskip : skip .code (declaration ++ text) = some ('v' :: (declaration.tail ++ text)) :=
    skip_of_significant (by decide)
  have hstart : declaration.isPrefixOf ('v' :: (declaration.tail ++ text)) = true :=
    List.isPrefixOf_iff_prefix.mpr (List.prefix_append declaration text)
  have hdrop : ('v' :: (declaration.tail ++ text)).drop declaration.length = text :=
    @List.drop_left _ declaration text
  simp [readScript, hskip, hstart, hdrop, h]

theorem readScript_semicolon :
    readScript engine (fuel + 1) (';' :: rest) globals = readScript engine fuel rest globals := by
  have hskip : skip .code (';' :: rest) = some (';' :: rest) := skip_of_significant (by decide)
  simp [readScript, hskip]

theorem readScript_end (h : skip .code text = some []) :
    readScript engine (fuel + 1) text globals = some globals := by
  rw [readScript, h]

/-- A step's own script defines its function and nothing else. -/
theorem getOrCreateFor_of_reads (h : Reads engine js f) : getOrCreateFor engine js = some ⟨[f], none⟩ := by
  obtain ⟨rest, hread, hend, _⟩ := h
  obtain ⟨t, hskip, hfunction⟩ := hread []
  rw [List.append_nil] at hskip hfunction
  have hlength : ∃ n, js.toList.length = n + 1 := by
    refine Nat.exists_eq_succ_of_ne_zero fun hzero => ?_
    rw [List.eq_nil_of_length_eq_zero hzero] at hskip
    exact nomatch hskip
  obtain ⟨n, hn⟩ := hlength
  rw [getOrCreateFor, hn, readScript_function hskip hfunction]
  exact readScript_end hend

theorem runJSTransformation_of_soleFunction (h : soleFunction engine js = some f) (input : Jsonb) :
    runJSTransformation engine input js =
      (convertValue input).bind fun jsonAsMap => (engine.apply f jsonAsMap).map .obj := by
  obtain ⟨hread, hname, hne⟩ := soleFunction_eq_some h
  rw [runJSTransformation, getOrCreateFor_of_reads hread, Option.bind_some]
  refine Option.bind_congr fun jsonAsMap _ => ?_
  rw [invoke, List.find?_cons_of_pos (by simp [hname]), Option.bind_some, call_of_ne hne]

theorem createCompositeJS_toList (list : List Transformation) : (createCompositeJS list).toList =
    declaration ++ ([','].intercalate ((list.filterMap Transformation.transformationCode).map String.toList) ++
      ']' :: ';' :: ' ' :: runSteps.text) := by
  have hopen : "var steps = [".toList = declaration := rfl
  have hclose : "]; ".toList = [']', ';', ' '] := rfl
  have hcomma : ",".toList = [','] := rfl
  have hend : "function transform(event) \x7b steps.forEach( function(f)\x7bf(event)\x7d ); \x7d".toList =
      runSteps.text := rfl
  unfold createCompositeJS
  rw [String.toList_append, String.toList_append, String.toList_append, String.toList_intercalate, hopen, hclose,
    hcomma, hend, List.append_assoc, List.append_assoc]
  rfl

theorem length_le_intercalate (codes : List (List Char)) :
    codes.length ≤ ([','].intercalate codes).length + 1 := by
  induction codes with
  | nil => exact Nat.zero_le _
  | cons code codes ih =>
    cases codes with
    | nil => simp
    | cons code' codes =>
      rw [List.intercalate_cons_cons, List.length_append, List.length_append, List.length_cons]
      simp only [List.length_singleton]
      omega

/-- The script of a chain defines the function it ends with, and the steps are those with code. -/
theorem getOrCreateFor_createCompositeJS {list : List Transformation} {fs : List Function}
    (h : List.Forall₂ (Reads engine) (list.filterMap Transformation.transformationCode) fs) :
    getOrCreateFor engine (createCompositeJS list) = some ⟨[runSteps], some fs⟩ := by
  let codes := (list.filterMap Transformation.transformationCode).map String.toList
  let elements := [','].intercalate codes ++ ']' :: ';' :: ' ' :: runSteps.text
  have hcodes : codes.length ≤ ([','].intercalate codes).length + 1 := length_le_intercalate codes
  have hlength : ∃ n, (declaration ++ elements).length = n + 3 ∧ codes.length < n + 3 := by
    refine ⟨(declaration ++ elements).length - 3, ?_⟩
    have hdeclaration : declaration.length = 13 := rfl
    simp only [List.length_append, List.length_cons, elements, hdeclaration]
    omega
  obtain ⟨n, hn, hfuel⟩ := hlength
  rw [List.length_map] at hfuel
  rw [getOrCreateFor, createCompositeJS_toList, hn, readScript_declaration (readElements_codes h hfuel)]
  obtain ⟨t, ht⟩ := engine.function_start _ _ _ engine.function_runSteps
  have hskip : skip .code (' ' :: runSteps.text) = some ('f' :: t) := by
    rw [ht, skip_space (by decide), skip_of_significant (by decide)]
  have hfunction : engine.function ('f' :: t) = some (runSteps, []) := ht ▸ engine.function_runSteps
  rw [readScript_semicolon, readScript_function hskip hfunction]
  exact readScript_end rfl

/-! ### The steps of a chain -/

theorem execute_cons (t : Transformation) (steps : List Transformation) (input : Jsonb) :
    execute engine (t :: steps) input = (transform engine t input).bind (execute engine steps) :=
  rfl

/-- The steps are executed by applying the functions of those with code. -/
theorem execute_functions {steps : List Transformation}
    (hsole : ∀ t ∈ steps, ∀ code, t.transformationCode = some code → (soleFunction engine code).isSome) :
    ∃ fs, List.Forall₂ (Reads engine) (steps.filterMap Transformation.transformationCode) fs ∧
      ∀ jsonAsMap, execute engine steps (.obj jsonAsMap) =
        (fs.foldlM (fun event f => engine.apply f event) jsonAsMap).map .obj := by
  induction steps with
  | nil => exact ⟨[], .nil, fun jsonAsMap => rfl⟩
  | cons t steps ih =>
    obtain ⟨fs, hreads, hexecute⟩ := ih fun t ht => hsole t (List.mem_cons_of_mem _ ht)
    cases hcode : t.transformationCode with
    | none =>
      rw [List.filterMap_cons_none hcode]
      refine ⟨fs, hreads, fun jsonAsMap => ?_⟩
      have htransform : transform engine t (.obj jsonAsMap) = some (.obj jsonAsMap) := by rw [transform, hcode]
      rw [execute_cons, htransform]
      exact hexecute jsonAsMap
    | some js =>
      obtain ⟨f, hf⟩ := Option.isSome_iff_exists.mp (hsole t List.mem_cons_self js hcode)
      rw [List.filterMap_cons_some hcode]
      refine ⟨f :: fs, .cons (soleFunction_eq_some hf).1 hreads, fun jsonAsMap => ?_⟩
      have htransform : transform engine t (.obj jsonAsMap) = (engine.apply f jsonAsMap).map .obj := by
        rw [transform, hcode]
        exact runJSTransformation_of_soleFunction hf (.obj jsonAsMap)
      rw [execute_cons, htransform, List.foldlM_cons, Option.bind_map]
      cases engine.apply f jsonAsMap with
      | none => rfl
      | some changed => exact hexecute changed

/-- What is no object goes through the steps before the first one with code. -/
theorem execute_no_object {steps : List Transformation} {input : Jsonb} (hinput : convertValue input = none) :
    execute engine steps input =
      if ∃ t ∈ steps, t.transformationCode.isSome then none else some input := by
  induction steps with
  | nil => rfl
  | cons t steps ih =>
    rw [execute_cons]
    cases hcode : t.transformationCode with
    | none =>
      have htransform : transform engine t input = some input := by rw [transform, hcode]
      rw [htransform, Option.bind_some, ih]
      simp [hcode]
    | some js =>
      have htransform : transform engine t input = none := by
        rw [transform, hcode]
        simp [runJSTransformation, hinput]
      rw [htransform, Option.bind_none, if_pos ⟨t, List.mem_cons_self, by rw [hcode]; rfl⟩]

theorem of_transformationCode {key : TransformationKey} {steps : List Transformation} {id : String}
    {chain : TransformationChain} (h : TransformationChain.of key steps id = some chain) :
    chain.transformationCode = some (createCompositeJS steps) := by
  unfold TransformationChain.of at h
  split at h
  · exact nomatch h
  · split at h
    · rw [← Option.some.inj h]
    · exact nomatch h

end Proofs

/-! ### An engine for functions of some texts -/

/-- Up to the brace that closes the first one, and what follows it. -/
def closing : Nat → List Char → Option (List Char × List Char)
  | _, [] => none
  | depth, '{' :: rest => (closing (depth + 1) rest).map fun (body, rest) => ('{' :: body, rest)
  | 0, '}' :: _ => none
  | 1, '}' :: rest => some (['}'], rest)
  | depth + 2, '}' :: rest => (closing (depth + 1) rest).map fun (body, rest) => ('}' :: body, rest)
  | depth, c :: rest => (closing depth rest).map fun (body, rest) => (c :: body, rest)

def keyword : List Char := "function ".toList

def readFunction (text : List Char) : Option (Function × List Char) :=
  if keyword.isPrefixOf text then
    (closing 0 text).map fun (body, rest) =>
      (⟨String.ofList ((body.drop keyword.length).takeWhile (· != '(')), body⟩, rest)
  else none

theorem closing_append {depth : Nat} {text body rest : List Char} (more : List Char)
    (h : closing depth text = some (body, rest)) : closing depth (text ++ more) = some (body, rest ++ more) := by
  have hmap {c : Char} {r : Option (List Char × List Char)} {body rest : List Char}
      (h : (r.map fun p => (c :: p.1, p.2)) = some (body, rest)) :
      ∃ b, r = some (b, rest) ∧ c :: b = body := by
    obtain ⟨⟨b, _⟩, hr, heq⟩ := Option.map_eq_some_iff.mp h
    injection heq with hb hrest
    exact ⟨b, hrest ▸ hr, hb⟩
  fun_induction closing depth text generalizing body rest with
  | case1 => exact nomatch h
  | case2 depth text ih =>
    obtain ⟨b, hb, rfl⟩ := hmap h
    simp [closing, ih hb]
  | case3 => exact nomatch h
  | case4 text =>
    injection h with h
    injection h with hbody hrest
    subst hbody hrest
    rfl
  | case5 depth text ih =>
    obtain ⟨b, hb, rfl⟩ := hmap h
    simp [closing, ih hb]
  | case6 depth c text hopen hzero hone hmore ih =>
    obtain ⟨b, hb, rfl⟩ := hmap h
    rw [List.cons_append, closing, ih hb]
    · rfl
    · exact hopen
    · exact hzero
    · exact hone
    · exact hmore

theorem readFunction_eq_some {text rest : List Char} {f : Function} (h : readFunction text = some (f, rest)) :
    keyword <+: text ∧ ∃ body, closing 0 text = some (body, rest) ∧
      f = ⟨String.ofList ((body.drop keyword.length).takeWhile (· != '(')), body⟩ := by
  unfold readFunction at h
  split at h
  · rename_i hstart
    obtain ⟨⟨body, _⟩, hclosing, heq⟩ := Option.map_eq_some_iff.mp h
    injection heq with hf hrest
    exact ⟨List.isPrefixOf_iff_prefix.mp hstart, body, hrest ▸ hclosing, hf.symm⟩
  · exact nomatch h

theorem readFunction_start (text : List Char) (f : Function) (rest : List Char)
    (h : readFunction text = some (f, rest)) : ∃ more, text = 'f' :: more := by
  obtain ⟨⟨more, rfl⟩, _⟩ := readFunction_eq_some h
  exact ⟨_, rfl⟩

theorem readFunction_append (text : List Char) (f : Function) (rest more : List Char)
    (h : readFunction text = some (f, rest)) : readFunction (text ++ more) = some (f, rest ++ more) := by
  obtain ⟨hstart, body, hclosing, rfl⟩ := readFunction_eq_some h
  have hmore : keyword.isPrefixOf (text ++ more) = true :=
    List.isPrefixOf_iff_prefix.mpr (hstart.trans (List.prefix_append text more))
  rw [readFunction, if_pos hmore, closing_append more hclosing]
  rfl

theorem readFunction_runSteps : readFunction runSteps.text = some (runSteps, []) := by
  have hkeyword : keyword.isPrefixOf runSteps.text = true := by decide +kernel
  have hclosing : closing 0 runSteps.text = some (runSteps.text, []) := by decide +kernel
  have hname : (runSteps.text.drop keyword.length).takeWhile (· != '(') = "transform".toList := by decide +kernel
  rw [readFunction, if_pos hkeyword, hclosing, Option.map_some]
  dsimp only
  rw [hname, String.ofList_toList]
  rfl

/-- `event.target = event.source`. -/
def assign (target source : String) (event : JsonMap) : JsonMap :=
  match event.lookup source with
  | some v => Jsonb.setMember event target v
  | none => event

def titled : String := "function transform(event) \x7b event.name = event.title; \x7d"

def labelled : String := "/* as shown */ function transform(event) \x7b event.label = event.name; \x7d"

/-- Two functions that it knows assign, and the others do nothing. -/
def assigning : Engine where
  function := readFunction
  apply f event := some <|
    if f.text = titled.toList then assign "name" "title" event
    else if f.text = (labelled.toList.dropWhile (· != 'f')) then assign "label" "name" event
    else event
  function_start := readFunction_start
  function_append := readFunction_append
  function_runSteps := readFunction_runSteps

/-- Where the script of each step is the text of one function, the chain is the composition of its
steps, unless no step has a script and the document is no object. -/
theorem chain_composes (engine : Engine) {key : TransformationKey} {steps : List Transformation} {id : String}
    {chain : TransformationChain} (h : TransformationChain.of key steps id = some chain)
    (hsole : ∀ t ∈ steps, ∀ code, t.transformationCode = some code → (soleFunction engine code).isSome)
    (input : Jsonb) : transform engine chain.toTransformation input = execute engine steps input ↔
      (convertValue input).isSome ∨ ∃ t ∈ steps, t.transformationCode.isSome := by
  obtain ⟨fs, hreads, hexecute⟩ := execute_functions hsole
  have hcomposite : transform engine chain.toTransformation input =
      (convertValue input).bind fun jsonAsMap =>
        (fs.foldlM (fun event f => engine.apply f event) jsonAsMap).map .obj := by
    rw [transform, of_transformationCode h]
    simp only [runJSTransformation, getOrCreateFor_createCompositeJS hreads, Option.bind_some]
    rfl
  rw [hcomposite]
  cases hinput : convertValue input with
  | some jsonAsMap =>
    obtain rfl : input = .obj jsonAsMap := by
      cases input with
      | obj members => rw [Option.some.inj hinput]
      | _ => exact nomatch hinput
    exact iff_of_true (hexecute jsonAsMap).symm (.inl rfl)
  | none =>
    rw [Option.bind_none, execute_no_object hinput]
    by_cases hcode : ∃ t ∈ steps, t.transformationCode.isSome
    · rw [if_pos hcode]
      exact iff_of_true rfl (.inr hcode)
    · rw [if_neg hcode]
      exact iff_of_false nofun fun hor => hor.elim nofun hcode

def order : TransformationKey := ⟨"shop", "Order"⟩

theorem exists_chain (key : TransformationKey) {steps : List Transformation} (hne : steps ≠ [])
    (hkey : ∀ t ∈ steps, key = t.key) (id : String) : ∃ chain, TransformationChain.of key steps id = some chain := by
  cases steps with
  | nil => exact absurd rfl hne
  | cons first rest =>
    rw [TransformationChain.of, if_pos (List.all_eq_true.mpr fun t ht => beq_iff_eq.mpr (hkey t ht))]
    exact ⟨_, rfl⟩

/-- A step for its `fromVersion`. -/
def step (fromVersion : Int) (transformationCode : Option String) : Transformation where
  key := order
  fromVersion
  toVersion := fromVersion + 1
  transformationCode

/-- The label is what the first step has made the name. -/
theorem chain_composes_upcast :
    ∃ chain, TransformationChain.of order [step 1 (some titled), step 2 none, step 3 (some labelled)] "1-4" =
      some chain ∧ (transform assigning chain.toTransformation (.obj [("title", .str "a")])).bind
        (fun document => (document.get? "label").bind Jsonb.scalarText) = some "a" := by
  obtain ⟨chain, hchain⟩ := exists_chain order
    (List.cons_ne_nil (step 1 (some titled)) [step 2 none, step 3 (some labelled)]) (by simp [step]) "1-4"
  have hsole : (soleFunction assigning titled).isSome ∧ (soleFunction assigning labelled).isSome := by
    decide +kernel
  have hexecute : (execute assigning [step 1 (some titled), step 2 none, step 3 (some labelled)]
      (.obj [("title", .str "a")])).bind (fun document => (document.get? "label").bind Jsonb.scalarText) = some "a" := by
    decide +kernel
  rw [← (chain_composes assigning hchain (fun t ht code hcode => ?_) _).mpr (.inl rfl)] at hexecute
  · exact ⟨chain, hchain, hexecute⟩
  simp only [List.mem_cons, List.not_mem_nil, or_false] at ht
  obtain rfl | rfl | rfl := ht
  · exact Option.some.inj hcode ▸ hsole.1
  · exact nomatch hcode
  · exact Option.some.inj hcode ▸ hsole.2

def noted : String := " function transform(e) \x7b\x7d // nothing to do"

/-- The comment at the end of a script makes one of the rest of the script of the chain. -/
theorem comment_swallows_chain : ¬ ∀ (engine : Engine) (key : TransformationKey) (steps : List Transformation)
    (id : String) (chain : TransformationChain), TransformationChain.of key steps id = some chain →
      ∀ input, transform engine chain.toTransformation input = execute engine steps input := by
  intro h
  obtain ⟨chain, hchain⟩ := exists_chain order (List.cons_ne_nil (step 1 (some noted)) []) (by simp [step]) "1-2"
  have hcomposite : transform assigning chain.toTransformation (.obj []) =
      runJSTransformation assigning (.obj []) (createCompositeJS [step 1 (some noted)]) := by
    rw [transform, of_transformationCode hchain]
  have hthrows : (runJSTransformation assigning (.obj []) (createCompositeJS [step 1 (some noted)])).isSome = false := by
    decide +kernel
  have hruns : (execute assigning [step 1 (some noted)] (.obj [])).isSome = true := by decide +kernel
  rw [← h assigning order _ _ chain hchain, hcomposite, hthrows] at hruns
  exact nomatch hruns

end FactCast.CompositeScript
