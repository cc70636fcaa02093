/-
# `Client.CaptureOptions` — the options that turn packet capture on

Three options ask for the packets of a visit.  From them the analyzer derives
one flag, `captureNetworkPackets`, and one object, the packet dumper, which
`start` and `stop` use just if the flag is set.  It learns of an option when the
options manager signals that it changed, and of those that were there before it
when it connects to the signal.

An option that becomes true sets the flag and makes the dumper.  The branch that
should clear the flag asks first whether it is clear, so nothing ever clears it.
The flag and the dumper go together for that reason, and `start` and `stop` are
safe in every run; but the flag stays when the last option is turned off.
-/
import Mathlib.Data.List.AList
import CaptureHpc.Lib.Machine
import CaptureHpc.Client.Element

namespace CaptureHpc.Client

/-! ## The options manager -/

/-- `optionsMap`; the order of the entries stands for the order of the hash table. -/
abbrev OptionsMap := AList fun _ : String => String

namespace OptionsMap

def getOption (optionsMap : OptionsMap) (option : String) : String :=
  (optionsMap.lookup option).getD ""

theorem getOption_insert_self (optionsMap : OptionsMap) (option value : String) :
    getOption (optionsMap.insert option value) option = value := by
  rw [getOption, AList.lookup_insert, Option.getD_some]

theorem getOption_insert_ne (optionsMap : OptionsMap) {option option' : String} (value : String)
    (h : option' ≠ option) :
    getOption (optionsMap.insert option value) option' = getOption optionsMap option' := by
  rw [getOption, AList.lookup_insert_ne h, getOption]

/-- An option with a value is in the map. -/
theorem mem_keys_of_getOption {optionsMap : OptionsMap} {option : String}
    (h : getOption optionsMap option ≠ "") : option ∈ optionsMap.keys := by
  rw [← AList.mem_keys, ← AList.lookup_isSome]
  cases hlookup : optionsMap.lookup option with
  | none => exact absurd (by rw [getOption, hlookup, Option.getD_none]) h
  | some value => rfl

end OptionsMap

open OptionsMap

/-- The loop over the attributes in `onOptionEvent`. -/
def readAttribute (x : String × String) (a : String × String) : String × String :=
  if a.1 = "name" then (a.2, x.2) else if a.1 = "value" then (x.1, a.2) else x

/-- The option and the value that a message sets, if it sets one. -/
def optionOf (element : Element) : Option (String × String) :=
  if element.name = "option" then
    let x := element.attributes.foldl readAttribute ("", "")
    if x.1 ≠ "" ∧ x.2 ≠ "" then some x else none
  else none

/-! ## The analyzer -/

/-- What `networkPacketDumper` points to. -/
inductive Dumper where
  | null
  | live
  | deleted
deriving DecidableEq

namespace Dumper

/-- A method of the dumper is called. -/
def call : Dumper → Option Unit
  | live => some ()
  | null | deleted => none

/-- A method of the dumper is called in an `if`. -/
def callIf (condition : Prop) [Decidable condition] (networkPacketDumper : Dumper) : Option Unit :=
  if condition then networkPacketDumper.call else some ()

def delete : Dumper → Option Dumper
  | live => some deleted
  | null | deleted => none

end Dumper

/-- What the analyzer calls on its monitors. -/
inductive MonitorCall where
  | setMonitorModifiedFiles (monitorModifiedFiles : Bool)
  | copyCreatedFiles
  /-- on each of the four monitors -/
  | clearExclusionLists

/-- The analyzer, with the options manager that it asks. -/
structure Analyzer where
  optionsMap : OptionsMap
  captureNetworkPackets : Bool
  collectModifiedFiles : Bool
  networkPacketDumper : Dumper
  malicious : Bool
  calls : List MonitorCall

def captureOptions : List String :=
  ["capture-network-packets-malicious", "capture-network-packets-benign", "capture-network-packets"]

namespace Analyzer

def onOptionChanged (s : Analyzer) (option : String) : Option Analyzer :=
  let value := getOption s.optionsMap option
  if option ∈ captureOptions then
    if value = "true" then
      let networkPacketDumper := if s.networkPacketDumper = .null then .live else s.networkPacketDumper
      some { s with networkPacketDumper, captureNetworkPackets := true }
    else if s.captureNetworkPackets = false ∧
        getOption s.optionsMap "capture-network-packets-malicious" ≠ "true" ∧
        getOption s.optionsMap "capture-network-packets-benign" ≠ "true" then
      if s.networkPacketDumper ≠ .null then do
        -- the pointer is not set to `NULL`
        let networkPacketDumper ← s.networkPacketDumper.delete
        some { s with networkPacketDumper, captureNetworkPackets := false }
      else some { s with captureNetworkPackets := false }
    else some s
  else if option = "collect-modified-files" then
    let collectModifiedFiles : Bool := value = "true"
    some { s with
      collectModifiedFiles, calls := s.calls ++ [.setMonitorModifiedFiles collectModifiedFiles] }
  else if option = "send-exclusion-lists" then
    if value = "true" then some { s with calls := s.calls ++ [.clearExclusionLists] } else some s
  else some s

/-- The constructor up to where it connects; what `malicious` is then is left open. -/
def initial (optionsMap : OptionsMap) (malicious : Bool) : Analyzer where
  optionsMap
  captureNetworkPackets := getOption optionsMap "capture-network-packets" = "true"
  collectModifiedFiles := false
  networkPacketDumper := .null
  malicious
  calls := []

/-- `connect_onOptionChanged` signals every option of the map. -/
def construct (optionsMap : OptionsMap) (malicious : Bool) : Option Analyzer :=
  optionsMap.keys.foldlM onOptionChanged (initial optionsMap malicious)

def addOption (s : Analyzer) (option value : String) : Option Analyzer :=
  onOptionChanged { s with optionsMap := s.optionsMap.insert option value } option

def onOptionEvent (s : Analyzer) (element : Element) : Option Analyzer :=
  match optionOf element with
  | some (option, value) => s.addOption option value
  | none => some s

def start (s : Analyzer) : Option Analyzer := do
  s.networkPacketDumper.callIf s.captureNetworkPackets
  let calls := if s.collectModifiedFiles then s.calls ++ [.setMonitorModifiedFiles true] else s.calls
  some { s with malicious := false, calls }

/-- The packets of a visit that is not to be captured are deleted. -/
def deleteAdapterFiles (s : Analyzer) : Option Unit := do
  s.networkPacketDumper.callIf <| s.networkPacketDumper ≠ .null ∧ s.malicious ∧
    getOption s.optionsMap "capture-network-packets-malicious" = "false"
  s.networkPacketDumper.callIf <| s.networkPacketDumper ≠ .null ∧ ¬s.malicious ∧
    getOption s.optionsMap "capture-network-packets-benign" = "false"

/-- Until the logs are packed. -/
def stop (s : Analyzer) : Option Analyzer := do
  s.networkPacketDumper.callIf s.captureNetworkPackets
  let calls := if s.collectModifiedFiles then
      s.calls ++ [.setMonitorModifiedFiles false, .copyCreatedFiles] else s.calls
  if getOption s.optionsMap "server" ≠ "" ∧ (s.collectModifiedFiles ∨ s.captureNetworkPackets) then
    s.deleteAdapterFiles
  some { s with calls }

/-! ## What an option does to the flag and the dumper -/

/-- The option asks for packets. -/
def turnsOn (optionsMap : OptionsMap) (option : String) : Bool :=
  option ∈ captureOptions ∧ getOption optionsMap option = "true"

/-- At least one of the three options is true. -/
def wanted (optionsMap : OptionsMap) : Bool :=
  captureOptions.any fun option => getOption optionsMap option = "true"

/-- The dumper is there if the flag is set, and was never deleted. -/
def Undeleted (s : Analyzer) : Prop :=
  s.networkPacketDumper = .null ∨ s.networkPacketDumper = .live ∧ s.captureNetworkPackets = true

/-- What `onOptionChanged` does, as far as packets are concerned. -/
structure Changed (s : Analyzer) (option : String) (s' : Analyzer) : Prop where
  optionsMap : s'.optionsMap = s.optionsMap
  captureNetworkPackets :
    s'.captureNetworkPackets = (s.captureNetworkPackets || turnsOn s.optionsMap option)
  networkPacketDumper : s'.networkPacketDumper =
    if turnsOn s.optionsMap option then .live else s.networkPacketDumper

/-- The branch that clears the flag is entered with the flag clear and no dumper. -/
theorem onOptionChanged_spec {s : Analyzer} (hs : s.Undeleted) (option : String) :
    ∃ s', s.onOptionChanged option = some s' ∧ s.Changed option s' := by
  by_cases hcapture : option ∈ captureOptions
  · by_cases hvalue : getOption s.optionsMap option = "true"
    · have hon : turnsOn s.optionsMap option = true := decide_eq_true ⟨hcapture, hvalue⟩
      rw [onOptionChanged, if_pos hcapture, if_pos hvalue]
      refine ⟨_, rfl, rfl, by rw [hon, Bool.or_true], ?_⟩
      rw [if_pos hon]
      rcases hs with hnull | ⟨hlive, -⟩
      · exact if_pos hnull
      · simp [hlive]
    · have hon : turnsOn s.optionsMap option = false := decide_eq_false fun h => hvalue h.2
      have hsame : s.onOptionChanged option = some s := by
        rw [onOptionChanged, if_pos hcapture, if_neg hvalue]
        split
        · rename_i hclear
          rcases hs with hnull | ⟨-, hset⟩
          · rw [if_neg (not_not_intro hnull), ← hclear.1]
          · rw [hclear.1] at hset
            cases hset
        · rfl
      exact ⟨s, hsame, rfl, by rw [hon, Bool.or_false], by rw [hon]; rfl⟩
  · have hon : turnsOn s.optionsMap option = false := decide_eq_false fun h => hcapture h.1
    have hother (s' : Analyzer) (hmap : s'.optionsMap = s.optionsMap)
        (hflag : s'.captureNetworkPackets = s.captureNetworkPackets)
        (hdumper : s'.networkPacketDumper = s.networkPacketDumper) : s.Changed option s' :=
      ⟨hmap, by rw [hon, Bool.or_false, hflag], by rw [hon, hdumper]; rfl⟩
    rw [onOptionChanged, if_neg hcapture]
    split
    · exact ⟨_, rfl, hother _ rfl rfl rfl⟩
    · split
      · split
        · exact ⟨_, rfl, hother _ rfl rfl rfl⟩
        · exact ⟨_, rfl, hother _ rfl rfl rfl⟩
      · exact ⟨_, rfl, hother _ rfl rfl rfl⟩

theorem Changed.undeleted {s s' : Analyzer} {option : String} (h : s.Changed option s')
    (hs : s.Undeleted) : s'.Undeleted := by
  cases hon : turnsOn s.optionsMap option with
  | true =>
      exact .inr ⟨by rw [h.networkPacketDumper, hon]; rfl,
        by rw [h.captureNetworkPackets, hon, Bool.or_true]⟩
  | false =>
      have hflag := h.captureNetworkPackets
      have hdumper := h.networkPacketDumper
      rw [hon, Bool.or_false] at hflag
      rw [hon] at hdumper
      exact hs.imp hdumper.trans fun hlive => ⟨hdumper.trans hlive.1, hflag.trans hlive.2⟩

/-- The signals on connecting, one after another. -/
theorem changed_all : ∀ (options : List String) {s : Analyzer}, s.Undeleted →
    ∃ s', options.foldlM onOptionChanged s = some s' ∧ s'.optionsMap = s.optionsMap ∧
      s'.captureNetworkPackets = (s.captureNetworkPackets || options.any (turnsOn s.optionsMap)) ∧
      s'.networkPacketDumper =
        if options.any (turnsOn s.optionsMap) then .live else s.networkPacketDumper
  | [], s, _ => ⟨s, rfl, rfl, (Bool.or_false _).symm, rfl⟩
  | option :: options, s, hs => by
      obtain ⟨s₁, hone, hchanged⟩ := onOptionChanged_spec hs option
      obtain ⟨s', hall, hmap, hflag, hdumper⟩ := changed_all options (hchanged.undeleted hs)
      rw [hchanged.optionsMap] at hmap hflag hdumper
      refine ⟨s', ?_, hmap, ?_, ?_⟩
      · rw [List.foldlM_cons, hone]
        exact hall
      · rw [hflag, hchanged.captureNetworkPackets, List.any_cons, Bool.or_assoc]
      · rw [hdumper, hchanged.networkPacketDumper, List.any_cons]
        cases turnsOn s.optionsMap option with
        | true => simp
        | false => rfl

/-! ## The flag and the dumper go together -/

/-- The dumper is live if the flag is set, and else there is none. -/
def Paired (s : Analyzer) : Prop :=
  s.networkPacketDumper = if s.captureNetworkPackets then .live else .null

theorem Paired.undeleted {s : Analyzer} (h : s.Paired) : s.Undeleted := by
  cases hflag : s.captureNetworkPackets with
  | true =>
      rw [Paired, hflag] at h
      exact .inr ⟨h, hflag⟩
  | false =>
      rw [Paired, hflag] at h
      exact .inl h

theorem Changed.paired {s s' : Analyzer} {option : String} (h : s.Changed option s')
    (hs : s.Paired) : s'.Paired := by
  rw [Paired] at hs ⊢
  rw [h.networkPacketDumper, h.captureNetworkPackets, hs]
  cases turnsOn s.optionsMap option with
  | true => rw [Bool.or_true, if_pos rfl, if_pos rfl]
  | false => rw [Bool.or_false, if_neg Bool.false_ne_true]

theorem wanted_iff {optionsMap : OptionsMap} :
    wanted optionsMap = true ↔
      ∃ option ∈ captureOptions, getOption optionsMap option = "true" := by
  simp only [wanted, List.any_eq_true, decide_eq_true_eq]

/-- An option that is true is among those that are signalled. -/
theorem any_keys_turnsOn (optionsMap : OptionsMap) :
    optionsMap.keys.any (turnsOn optionsMap) = wanted optionsMap := by
  rw [Bool.eq_iff_iff, wanted_iff, List.any_eq_true]
  constructor
  · rintro ⟨option, -, hon⟩
    exact ⟨option, of_decide_eq_true hon⟩
  · rintro ⟨option, hcapture, htrue⟩
    exact ⟨option, mem_keys_of_getOption (by rw [htrue]; decide),
      decide_eq_true ⟨hcapture, htrue⟩⟩

/-- **A new analyzer** has the flag set just if an option is true. -/
theorem construct_spec (optionsMap : OptionsMap) (malicious : Bool) :
    ∃ s, construct optionsMap malicious = some s ∧ s.optionsMap = optionsMap ∧ s.Paired ∧
      s.captureNetworkPackets = wanted optionsMap := by
  have hnew : (initial optionsMap malicious).Undeleted := .inl rfl
  obtain ⟨s, hall, hmap, hflag, hdumper⟩ := changed_all optionsMap.keys hnew
  have hany : optionsMap.keys.any (turnsOn (initial optionsMap malicious).optionsMap) =
      wanted optionsMap := any_keys_turnsOn optionsMap
  have hplain : (initial optionsMap malicious).captureNetworkPackets = true →
      wanted optionsMap = true := by
    intro htrue
    exact wanted_iff.mpr ⟨_, by decide, of_decide_eq_true htrue⟩
  have hcapture : s.captureNetworkPackets = wanted optionsMap := by
    rw [hflag, hany]
    exact Bool.or_eq_right_iff_imp.mpr hplain
  refine ⟨s, hall, hmap, ?_, hcapture⟩
  rw [Paired, hcapture, ← hany]
  exact hdumper

/-! ## Runs -/

/-- What may happen to the analyzer. -/
inductive Action where
  /-- a message of the server -/
  | onOptionEvent (element : Element)
  | start
  | stop
  /-- an event of a monitor -/
  | event

/-- The option and the value that are set. -/
def Action.sets : Action → Option (String × String)
  | .onOptionEvent element => optionOf element
  | .start | .stop | .event => none

/-- `none` where a pointer to no dumper is used. -/
def next (s : Analyzer) : Action → Option Analyzer
  | .onOptionEvent element => s.onOptionEvent element
  | .start => s.start
  | .stop => s.stop
  | .event => some { s with malicious := true }

def machine : Machine Analyzer Action where
  init s := ∃ optionsMap malicious, construct optionsMap malicious = some s
  next := next

/-- What `start` and `stop` leave alone. -/
def SameCapture (s s' : Analyzer) : Prop :=
  s'.optionsMap = s.optionsMap ∧ s'.captureNetworkPackets = s.captureNetworkPackets ∧
    s'.networkPacketDumper = s.networkPacketDumper

theorem Paired.call {s : Analyzer} (h : s.Paired)
    (hused : s.captureNetworkPackets = true ∨ s.networkPacketDumper ≠ .null) :
    s.networkPacketDumper.call = some () := by
  cases hflag : s.captureNetworkPackets with
  | true =>
      rw [Paired, hflag] at h
      rw [h]
      rfl
  | false =>
      rw [Paired, hflag] at h
      exact absurd (hused.resolve_left (Bool.eq_false_iff.mp hflag)) (not_not_intro h)

theorem Paired.callIf {s : Analyzer} (h : s.Paired) {condition : Prop} [Decidable condition]
    (hused : condition → s.captureNetworkPackets = true ∨ s.networkPacketDumper ≠ .null) :
    s.networkPacketDumper.callIf condition = some () := by
  rw [Dumper.callIf]
  split
  · rename_i hcondition
    exact h.call (hused hcondition)
  · rfl

theorem Paired.start {s : Analyzer} (h : s.Paired) : ∃ s', s.start = some s' ∧ SameCapture s s' := by
  rw [Analyzer.start, h.callIf Or.inl]
  exact ⟨_, rfl, rfl, rfl, rfl⟩

theorem Paired.deleteAdapterFiles {s : Analyzer} (h : s.Paired) :
    s.deleteAdapterFiles = some () := by
  rw [Analyzer.deleteAdapterFiles, h.callIf fun hused => .inr hused.1]
  exact h.callIf fun hused => .inr hused.1

theorem Paired.stop {s : Analyzer} (h : s.Paired) : ∃ s', s.stop = some s' ∧ SameCapture s s' := by
  rw [Analyzer.stop, h.callIf Or.inl, h.deleteAdapterFiles]
  by_cases hpack : getOption s.optionsMap "server" ≠ "" ∧
      (s.collectModifiedFiles ∨ s.captureNetworkPackets)
  · simp only [if_pos hpack]
    exact ⟨_, rfl, rfl, rfl, rfl⟩
  · simp only [if_neg hpack]
    exact ⟨_, rfl, rfl, rfl, rfl⟩

theorem addOption_spec {s : Analyzer} (hs : s.Paired) (option value : String) :
    ∃ s', s.addOption option value = some s' ∧
      Changed { s with optionsMap := s.optionsMap.insert option value } option s' := by
  have hset : Undeleted { s with optionsMap := s.optionsMap.insert option value } := hs.undeleted
  exact onOptionChanged_spec hset option

/-- **A step**: an option is set, or neither the flag nor the dumper is touched. -/
theorem next_spec {s : Analyzer} (hs : s.Paired) (a : Action) :
    ∃ s', s.next a = some s' ∧ match a.sets with
      | some (option, value) =>
          Changed { s with optionsMap := s.optionsMap.insert option value } option s'
      | none => SameCapture s s' := by
  cases a with
  | start => exact hs.start
  | stop => exact hs.stop
  | event => exact ⟨_, rfl, rfl, rfl, rfl⟩
  | onOptionEvent element =>
      rw [next, onOptionEvent, Action.sets]
      cases optionOf element with
      | none => exact ⟨s, rfl, rfl, rfl, rfl⟩
      | some x => exact addOption_spec hs x.1 x.2

theorem Paired.next {s : Analyzer} (hs : s.Paired) (a : Action) :
    ∃ s', s.next a = some s' ∧ s'.Paired := by
  obtain ⟨s', hnext, hspec⟩ := next_spec hs a
  refine ⟨s', hnext, ?_⟩
  cases hsets : a.sets with
  | none =>
      rw [hsets] at hspec
      rw [Paired, hspec.2.1, hspec.2.2]
      exact hs
  | some x =>
      rw [hsets] at hspec
      exact Changed.paired hspec hs

/-! ## When the last option is turned off -/

/-- The message sets to another value the only one of the three options that is true. -/
def TurnsLastOff (s : Analyzer) (a : Action) : Prop :=
  ∃ option value, a.sets = some (option, value) ∧ option ∈ captureOptions ∧ value ≠ "true" ∧
    getOption s.optionsMap option = "true" ∧
    ∀ option' ∈ captureOptions, option' ≠ option → getOption s.optionsMap option' ≠ "true"

theorem turnsOn_insert {optionsMap : OptionsMap} {option value : String} :
    turnsOn (optionsMap.insert option value) option = true ↔
      option ∈ captureOptions ∧ value = "true" := by
  rw [turnsOn, decide_eq_true_iff, getOption_insert_self]

theorem wanted_insert {optionsMap : OptionsMap} {option value : String} :
    wanted (optionsMap.insert option value) = true ↔
      option ∈ captureOptions ∧ value = "true" ∨
        ∃ option' ∈ captureOptions, option' ≠ option ∧ getOption optionsMap option' = "true" := by
  rw [wanted_iff]
  constructor
  · rintro ⟨option', hcapture, htrue⟩
    rcases eq_or_ne option' option with rfl | hne
    · rw [getOption_insert_self] at htrue
      exact .inl ⟨hcapture, htrue⟩
    · rw [getOption_insert_ne optionsMap value hne] at htrue
      exact .inr ⟨option', hcapture, hne, htrue⟩
  · rintro (⟨hcapture, rfl⟩ | ⟨option', hcapture, hne, htrue⟩)
    · exact ⟨option, hcapture, getOption_insert_self ..⟩
    · exact ⟨option', hcapture, by rw [getOption_insert_ne optionsMap value hne, htrue]⟩

/-- No option asks for packets any more, though one did. -/
theorem lost_iff {optionsMap : OptionsMap} {option value : String} :
    wanted optionsMap = true ∧ ¬wanted (optionsMap.insert option value) = true ↔
      option ∈ captureOptions ∧ value ≠ "true" ∧ getOption optionsMap option = "true" ∧
        ∀ option' ∈ captureOptions, option' ≠ option → getOption optionsMap option' ≠ "true" := by
  rw [wanted_insert, wanted_iff]
  constructor
  · rintro ⟨⟨option', hcapture, htrue⟩, hnone⟩
    have hrest : ∀ o ∈ captureOptions, o ≠ option → getOption optionsMap o ≠ "true" := by
      intro o ho hne hotrue
      exact hnone (.inr ⟨o, ho, hne, hotrue⟩)
    obtain rfl : option' = option := by
      by_contra hne
      exact hrest option' hcapture hne htrue
    exact ⟨hcapture, fun hvalue => hnone (.inl ⟨hcapture, hvalue⟩), htrue, hrest⟩
  · rintro ⟨hcapture, hvalue, htrue, hrest⟩
    refine ⟨⟨option, hcapture, htrue⟩, ?_⟩
    rintro (⟨-, heq⟩ | ⟨option', hcapture', hne, htrue'⟩)
    · exact hvalue heq
    · exact hrest option' hcapture' hne htrue'

theorem turnsLastOff_iff {s : Analyzer} {a : Action} {option value : String}
    (h : a.sets = some (option, value)) : TurnsLastOff s a ↔
      wanted s.optionsMap = true ∧ ¬wanted (s.optionsMap.insert option value) = true := by
  rw [lost_iff]
  constructor
  · rintro ⟨option', value', hsets, hlast⟩
    obtain ⟨rfl, rfl⟩ := Prod.mk.inj (Option.some.inj (h.symm.trans hsets))
    exact hlast
  · intro hlast
    exact ⟨option, value, h, hlast⟩

/-- What is asked for after an option is set was asked for before, or is asked for by the option. -/
theorem wanted_of_insert {optionsMap : OptionsMap} {option value : String}
    (h : wanted (optionsMap.insert option value) = true) :
    wanted optionsMap = true ∨ turnsOn (optionsMap.insert option value) option = true := by
  rw [turnsOn_insert]
  rcases wanted_insert.mp h with hon | ⟨option', hcapture, -, htrue⟩
  · exact .inr hon
  · exact .inl (wanted_iff.mpr ⟨option', hcapture, htrue⟩)

/-- The flag says whether an option is true, and all that uses the dumper finds it. -/
structure Agrees (s : Analyzer) : Prop where
  flag : s.captureNetworkPackets = true ↔
    ∃ option ∈ captureOptions, getOption s.optionsMap option = "true"
  dumper : s.networkPacketDumper = .live ↔ s.captureNetworkPackets = true
  start : s.start.isSome
  stop : s.stop.isSome

theorem Paired.agrees_iff {s : Analyzer} (h : s.Paired) :
    s.Agrees ↔ s.captureNetworkPackets = wanted s.optionsMap := by
  rw [Bool.eq_iff_iff, wanted_iff]
  refine ⟨Agrees.flag, fun hflag => ⟨hflag, ?_, ?_, ?_⟩⟩
  · rw [h]
    cases s.captureNetworkPackets with
    | true => simp
    | false => simp
  · obtain ⟨s', hstart, -⟩ := h.start
    rw [hstart]
    rfl
  · obtain ⟨s', hstop, -⟩ := h.stop
    rw [hstop]
    rfl

/-- From where the flag agrees a step makes it wrong just if it turns the last option off. -/
theorem agrees_next {s s' : Analyzer} {a : Action} (hs : s.Paired) (hagrees : s.Agrees)
    (hnext : s.next a = some s') : s'.Agrees ↔ ¬TurnsLastOff s a := by
  obtain ⟨s₁, hnext₁, hs'⟩ := hs.next a
  obtain rfl : s₁ = s' := Option.some.inj (hnext₁.symm.trans hnext)
  obtain ⟨s₂, hnext₂, hspec⟩ := next_spec hs a
  obtain rfl : s₂ = s₁ := Option.some.inj (hnext₂.symm.trans hnext)
  have hflag : s.captureNetworkPackets = wanted s.optionsMap := hs.agrees_iff.mp hagrees
  rw [hs'.agrees_iff]
  cases hsets : a.sets with
  | none =>
      rw [hsets] at hspec
      rw [hspec.1, hspec.2.1]
      refine ⟨fun _ => ?_, fun _ => hflag⟩
      rintro ⟨option, value, hset, -⟩
      rw [hsets] at hset
      cases hset
  | some x =>
      rw [hsets] at hspec
      have hmap : s₂.optionsMap = s.optionsMap.insert x.1 x.2 := hspec.optionsMap
      have hnew : s₂.captureNetworkPackets =
          (wanted s.optionsMap || turnsOn (s.optionsMap.insert x.1 x.2) x.1) := by
        rw [← hflag]
        exact hspec.captureNetworkPackets
      rw [turnsLastOff_iff hsets, hmap, hnew, Bool.eq_iff_iff, Bool.or_eq_true]
      constructor
      · rintro heq ⟨hbefore, hafter⟩
        exact hafter (heq.mp (.inl hbefore))
      · intro hkept
        refine ⟨?_, wanted_of_insert⟩
        rintro (hbefore | hon)
        · by_contra hafter
          exact hkept ⟨hbefore, hafter⟩
        · exact wanted_insert.mpr (.inl (turnsOn_insert.mp hon))

/-- **The flag agrees with the options** all along if and only if no message turns the last of them
off; no run uses a dumper that is not there. -/
theorem capture_iff (optionsMap : OptionsMap) (malicious : Bool) (actions : List Action) :
    ∃ s, construct optionsMap malicious = some s ∧ (∃ s', machine.run actions s = some s') ∧
      (machine.Throughout Agrees actions s ↔
        machine.Meets (fun s a => ¬TurnsLastOff s a) actions s) := by
  obtain ⟨s, hconstruct, hmap, hpaired, hflag⟩ := construct_spec optionsMap malicious
  obtain ⟨s', hrun, -⟩ := Machine.exists_run_of (M := machine) (fun _ a h => h.next a) actions s hpaired
  have hagrees : s.Agrees := hpaired.agrees_iff.mpr (by rw [hflag, hmap])
  refine ⟨s, hconstruct, ⟨s', hrun⟩, ?_⟩
  refine Machine.throughout_iff_meets (I := fun s => s.Paired ∧ s.Agrees) (fun _ h => h.2) ?_
    ⟨hpaired, hagrees⟩ hrun
  intro s a s' ⟨hs, hagrees⟩ hnext
  obtain ⟨s₁, hnext₁, hs₁⟩ := hs.next a
  obtain rfl : s₁ = s' := Option.some.inj (hnext₁.symm.trans hnext)
  have hiff := agrees_next hs hagrees hnext
  exact ⟨fun hok => ⟨hs₁, hiff.mpr hok⟩, hiff.mp⟩

/-- The message of the server that sets an option. -/
def optionMessage (option value : String) : Element where
  name := "option"
  attributes := [("name", option), ("value", value)]

/-- Capture is turned on and off again: the flag stays, and the dumper with it. -/
theorem capture_stays_on :
    ∃ s s', construct ∅ false = some s ∧
      machine.run [.onOptionEvent (optionMessage "capture-network-packets" "true"),
        .onOptionEvent (optionMessage "capture-network-packets" "false")] s = some s' ∧
      s'.captureNetworkPackets = true ∧ s'.networkPacketDumper = .live ∧
      ∀ option ∈ captureOptions, getOption s'.optionsMap option ≠ "true" := by
  exact ⟨_, _, rfl, rfl, rfl, rfl, by decide⟩

end Analyzer

end CaptureHpc.Client
