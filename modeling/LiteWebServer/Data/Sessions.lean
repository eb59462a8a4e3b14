import LiteWebServer.Data.Transition

namespace LiteWebServer.Data

/-! A system that hosts machines.  What one of them was told and what it said since it was
opened is read off the labels of the whole system, and on its own the machine says the same. -/

/-- What a label means for one of the machines. -/
inductive Mark (ι β : Type) where
  | quiet
  | opened
  | told (input : ι) (output : β)

def Mark.onto (trace : Option (List (ι × β))) : Mark ι β → Option (List (ι × β))
  | .quiet => trace
  | .opened => some []
  | .told input output => trace.map (· ++ [(input, output)])

/-- The inputs since the last opening, if there was one, each with its output. -/
def session (read : α → Mark ι β) (labels : List α) : Option (List (ι × β)) :=
  labels.foldl (fun trace label => (read label).onto trace) none

/-- The machine takes the inputs of the trace one after the other, and these are its outputs. -/
def Follows (next : τ → ι → Option (τ × β)) (state : τ) (trace : List (ι × β)) (last : τ) : Prop :=
  System.follow next state (trace.map Prod.fst) = some (last, trace.map Prod.snd)

variable {read : α → Mark ι β} {labels : List α} {label : α}

theorem session_append : session read (labels ++ [label]) = (read label).onto (session read labels) :=
  List.foldl_append

theorem session_quiet (quiet : read label = .quiet) :
    session read (labels ++ [label]) = session read labels := by
  rw [session_append, quiet]
  rfl

theorem session_opened (opened : read label = .opened) :
    session read (labels ++ [label]) = some [] := by
  rw [session_append, opened]
  rfl

theorem session_told {input : ι} {output : β} (told : read label = .told input output) :
    session read (labels ++ [label]) = (session read labels).map (· ++ [(input, output)]) := by
  rw [session_append, told]
  rfl

/-- What a machine was told stands in the labels. -/
theorem mem_of_session {trace : List (ι × β)} (told : session read labels = some trace) :
    ∀ entry ∈ trace, ∃ label ∈ labels, read label = .told entry.1 entry.2 := by
  induction labels using List.reverseRecOn generalizing trace with
  | nil => cases told
  | append_singleton labels label ih =>
      intro entry member
      cases mark : read label with
      | quiet =>
          rw [session_quiet mark] at told
          obtain ⟨earlier, inside, same⟩ := ih told entry member
          exact ⟨earlier, List.mem_append_left _ inside, same⟩
      | opened =>
          rw [session_opened mark, Option.some.injEq] at told
          subst told
          cases member
      | told input output =>
          rw [session_told mark] at told
          obtain ⟨before, told', rfl⟩ := Option.map_eq_some_iff.mp told
          rcases List.mem_append.mp member with old | new
          · obtain ⟨earlier, inside, same⟩ := ih told' entry old
            exact ⟨earlier, List.mem_append_left _ inside, same⟩
          · rw [List.mem_singleton.mp new]
            exact ⟨label, List.mem_append_right _ (List.mem_singleton_self _), mark⟩

theorem System.follow_concat {next : τ → ι → Option (τ × β)} {state between last : τ} {input : ι}
    {outputs : List β} {output : β} (followed : follow next state inputs = some (between, outputs))
    (stepped : next between input = some (last, output)) :
    follow next state (inputs ++ [input]) = some (last, outputs ++ [output]) := by
  induction inputs generalizing state outputs with
  | nil =>
      cases followed
      exact follow_cons.mpr ⟨last, output, [], stepped, rfl, rfl⟩
  | cons first rest ih =>
      obtain ⟨after, said, later, begun, further, rfl⟩ := follow_cons.mp followed
      exact follow_cons.mpr ⟨after, said, later ++ [output], begun, ih further, rfl⟩

theorem System.follow_append {next : τ → ι → Option (τ × β)} {state last : τ} {first later : List ι}
    {outputs : List β} (followed : follow next state (first ++ later) = some (last, outputs)) :
    ∃ between said said', follow next state first = some (between, said) ∧
      follow next between later = some (last, said') ∧ outputs = said ++ said' := by
  induction first generalizing state outputs with
  | nil => exact ⟨state, [], outputs, rfl, followed, rfl⟩
  | cons input rest ih =>
      obtain ⟨after, output, outputs', stepped, further, rfl⟩ := follow_cons.mp followed
      obtain ⟨between, said, said', begun, ended, rfl⟩ := ih further
      exact ⟨between, output :: said, said', follow_cons.mpr ⟨after, output, said, stepped, begun, rfl⟩,
        ended, rfl⟩

theorem Follows.concat {next : τ → ι → Option (τ × β)} {state between last : τ}
    {trace : List (ι × β)} {input : ι} {output : β} (follows : Follows next state trace between)
    (stepped : next between input = some (last, output)) :
    Follows next state (trace ++ [(input, output)]) last := by
  rw [Follows, List.map_append, List.map_append]
  exact System.follow_concat follows stepped

theorem Follows.split {next : τ → ι → Option (τ × β)} {state last : τ} {trace : List (ι × β)}
    {input : ι} {output : β} (follows : Follows next state (trace ++ [(input, output)]) last) :
    ∃ between, Follows next state trace between ∧ next between input = some (last, output) := by
  rw [Follows, List.map_append, List.map_append] at follows
  obtain ⟨between, said, later, first, further, same⟩ := System.follow_append follows
  obtain ⟨after, output', outputs, stepped, ended, rfl⟩ := System.follow_cons.mp further
  cases ended
  obtain ⟨rfl, one⟩ := List.append_inj' same rfl
  cases one
  exact ⟨between, first, stepped⟩

/-- What each step of the host does to what it shows of the machine of a key.  `Inv` holds in
every state of the host. -/
structure Hosts (system : System σ α) (next : τ → ι → Option (τ × β)) (begun : τ)
    (read : κ → α → Mark ι β) (Inv : σ → Prop) (Shows : σ → κ → τ → Prop) : Prop where
  quiet : ∀ {before label after key image}, Inv before → system.step before label after →
    read key label = .quiet → Shows before key image → Shows after key image
  opens : ∀ {before label after key}, Inv before → system.step before label after →
    read key label = .opened → Shows after key begun
  tells : ∀ {before label after key image input output trace}, Inv before →
    system.step before label after → read key label = .told input output →
    Follows next begun trace image → Shows before key image →
    ∃ later, next image input = some (later, output) ∧ Shows after key later

/-- Every machine of a host is where its own session leads, and has said what it says there. -/
theorem Hosts.alone {system : System σ α} {next : τ → ι → Option (τ × β)} {begun : τ}
    {read : κ → α → Mark ι β} {Inv : σ → Prop} {Shows : σ → κ → τ → Prop}
    (hosts : Hosts system next begun read Inv Shows)
    (inv : ∀ {labels state}, system.Runs labels state → Inv state) {labels : List α} {state : σ}
    (run : system.Runs labels state) {key : κ} {trace : List (ι × β)}
    (told : session (read key) labels = some trace) :
    ∃ image, Follows next begun trace image ∧ Shows state key image := by
  induction run generalizing trace with
  | start started => cases told
  | @step labels before label after run stepped ih =>
      cases mark : read key label with
      | quiet =>
          rw [session_quiet mark] at told
          obtain ⟨image, follows, shown⟩ := ih told
          exact ⟨image, follows, hosts.quiet (inv run) stepped mark shown⟩
      | opened =>
          rw [session_opened mark, Option.some.injEq] at told
          subst told
          exact ⟨begun, rfl, hosts.opens (inv run) stepped mark⟩
      | told input output =>
          rw [session_told mark] at told
          obtain ⟨earlier, before, rfl⟩ := Option.map_eq_some_iff.mp told
          obtain ⟨image, follows, shown⟩ := ih before
          obtain ⟨later, moved, shown⟩ := hosts.tells (inv run) stepped mark follows shown
          exact ⟨later, follows.concat moved, shown⟩

theorem session_isSome (label : α) (told : (session read labels).isSome) :
    (session read (labels ++ [label])).isSome := by
  obtain ⟨trace, told⟩ := Option.isSome_iff_exists.mp told
  rw [session_append, told]
  cases read label with
  | quiet | opened | told => rfl

/-- What a label does to a machine, if there is one. -/
inductive Moves (next : τ → ι → Option (τ × β)) (begun : τ) :
    Option τ → Mark ι β → Option τ → Prop where
  | quiet (image : Option τ) : Moves next begun image .quiet image
  | opened (image : Option τ) : Moves next begun image .opened (some begun)
  | told {image later input output} (moved : next image input = some (later, output)) :
      Moves next begun (some image) (.told input output) (some later)

/-- Machines that know nothing of each other, each of them told what a label means for it. -/
def apart {κ τ : Type} (next : τ → ι → Option (τ × β)) (begun : τ) (read : κ → α → Mark ι β) :
    System (κ → Option τ) α where
  start machines := ∀ key, machines key = none
  step before label after := ∀ key, Moves next begun (before key) (read key label) (after key)

/-- The machine that a session leads to. -/
def machineOf (next : τ → ι → Option (τ × β)) (begun : τ) (told : Option (List (ι × β))) : Option τ :=
  told.bind fun trace => (System.follow next begun (trace.map Prod.fst)).map Prod.fst

theorem Follows.machineOf {next : τ → ι → Option (τ × β)} {begun image : τ} {trace : List (ι × β)}
    (follows : Follows next begun trace image) : machineOf next begun (some trace) = some image := by
  rw [Data.machineOf, Option.bind_some, follows]
  rfl

theorem moves_of_sessions {next : τ → ι → Option (τ × β)} {begun : τ}
    (alone : ∀ trace, session read (labels ++ [label]) = some trace →
      ∃ image, Follows next begun trace image)
    (opened : ∀ input output, read label = .told input output → (session read labels).isSome) :
    Moves next begun (machineOf next begun (session read labels)) (read label)
      (machineOf next begun (session read (labels ++ [label]))) := by
  cases mark : read label with
  | quiet =>
      rw [session_quiet mark]
      exact .quiet _
  | opened =>
      rw [session_opened mark]
      exact .opened _
  | told input output =>
      obtain ⟨trace, told⟩ := Option.isSome_iff_exists.mp (opened input output mark)
      have told' : session read (labels ++ [label]) = some (trace ++ [(input, output)]) := by
        rw [session_told mark, told]
        rfl
      obtain ⟨later, follows⟩ := alone _ told'
      obtain ⟨image, before, moved⟩ := follows.split
      rw [told, told', before.machineOf, follows.machineOf]
      exact .told moved

/-- A system whose machines are opened before they are told anything, and are alone in what they
say, does nothing that machines apart do not. -/
theorem apart_runs {κ τ : Type} {system : System σ α} {next : τ → ι → Option (τ × β)} {begun : τ}
    {read : κ → α → Mark ι β}
    (alone : ∀ {labels state}, system.Runs labels state → ∀ key trace,
      session (read key) labels = some trace → ∃ image, Follows next begun trace image)
    (opened : ∀ {labels before label after}, system.Runs labels before →
      system.step before label after → ∀ key input output, read key label = .told input output →
      (session (read key) labels).isSome)
    {labels : List α} {state : σ} (run : system.Runs labels state) :
    (apart next begun read).Runs labels
      (fun key => machineOf next begun (session (read key) labels)) := by
  induction run with
  | start started => exact .start fun key => rfl
  | step run stepped ih =>
      exact .step ih fun key => moves_of_sessions (alone (run.step stepped) key)
        (opened run stepped key)

end LiteWebServer.Data
