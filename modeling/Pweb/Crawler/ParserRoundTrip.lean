/-
# The answers of a home agent round trip (`crawler_parser/parser.hpp`)

A value is rendered with the tags of the grammar, and with white space after the tags and around
the time stamps.  Every rendering of a value parses as this value, white space and all, if its
strings are ones that the grammar can tell from the tags (`getall_round_trip`).
-/
import Pweb.Crawler.Parser

namespace CrawlerParser

open PhraseParser Poller

/-! ## Renderings -/

/-- White space. -/
def blank : Language UInt8 := blanks space

/-- Between a tag and its closing tag, with white space after each. -/
def renderTagged (name : Bytes) (L : Language UInt8) : Language UInt8 :=
  {openTag name} * ((blank * L) * ({closeTag name} * blank))

/-- A time stamp, with white space after it. -/
def renderTimestamp (timestamp : ℤ) : Language UInt8 := {decimal timestamp} * blank

def renderHomeAgent (i : Poller.HomeAgent) : Language UInt8 :=
  renderTagged (text "home agent")
    (renderTagged (text "hostname") {i.hostname} *
      (renderTagged (text "description") {i.description} *
        renderTagged (text "port") {i.port}))

def renderDevice (i : Device) : Language UInt8 :=
  renderTagged (text "device")
    (renderTagged (text "owner") {i.owner} * (renderTagged (text "name") {i.name} *
      (renderTagged (text "port") {i.port} * (renderTagged (text "type") {i.type} *
        (renderTagged (text "timestamp") (renderTimestamp i.timestamp) *
          (renderTagged (text "location") {i.location} *
            renderTagged (text "description") {i.description}))))))

/-- Updates with commas between them. -/
def renderUpdates : List Bytes → Language UInt8
  | [] => 1
  | update :: updates => {update} * (updates.map fun i => {text ","} * {i}).prod

def renderGetall (gall : Getall) : Language UInt8 :=
  renderTagged (text "getall")
    (renderTagged (text "name") {gall.haname} *
      (renderTagged (text "neighbours") (gall.homeagents.map renderHomeAgent).prod *
        (renderTagged (text "devices") (gall.devices.map renderDevice).prod *
          renderTagged (text "content updates") (renderUpdates gall.updates))))

/-! ## A writer -/

/-- The same white space after each tag. -/
def writeTagged (w name content : Bytes) : Bytes :=
  openTag name ++ ((w ++ content) ++ (closeTag name ++ w))

def writeHomeAgent (w : Bytes) (i : Poller.HomeAgent) : Bytes :=
  writeTagged w (text "home agent")
    (writeTagged w (text "hostname") i.hostname ++
      (writeTagged w (text "description") i.description ++ writeTagged w (text "port") i.port))

def writeDevice (w : Bytes) (i : Device) : Bytes :=
  writeTagged w (text "device")
    (writeTagged w (text "owner") i.owner ++ (writeTagged w (text "name") i.name ++
      (writeTagged w (text "port") i.port ++ (writeTagged w (text "type") i.type ++
        (writeTagged w (text "timestamp") (decimal i.timestamp ++ w) ++
          (writeTagged w (text "location") i.location ++
            writeTagged w (text "description") i.description))))))

def writeUpdates : List Bytes → Bytes
  | [] => []
  | update :: updates => update ++ updates.flatMap fun i => text "," ++ i

def writeGetall (w : Bytes) (gall : Getall) : Bytes :=
  writeTagged w (text "getall")
    (writeTagged w (text "name") gall.haname ++
      (writeTagged w (text "neighbours") (gall.homeagents.flatMap (writeHomeAgent w)) ++
        (writeTagged w (text "devices") (gall.devices.flatMap (writeDevice w)) ++
          writeTagged w (text "content updates") (writeUpdates gall.updates))))

theorem writeTagged_mem {w content : Bytes} {L : Language UInt8} (hw : w ∈ blank) (name : Bytes)
    (h : content ∈ L) : writeTagged w name content ∈ renderTagged name L :=
  Language.append_mem_mul rfl
    (Language.append_mem_mul (Language.append_mem_mul hw h) (Language.append_mem_mul rfl hw))

theorem flatMap_mem_prod {β : Type} {write : β → Bytes} {render : β → Language UInt8}
    (records : List β) (h : ∀ i ∈ records, write i ∈ render i) :
    records.flatMap write ∈ (records.map render).prod := by
  induction records with
  | nil => exact Language.nil_mem_one
  | cons i records ih =>
      obtain ⟨hi, hrecords⟩ := List.forall_mem_cons.mp h
      rw [List.flatMap_cons, List.map_cons, List.prod_cons]
      exact Language.append_mem_mul hi (ih hrecords)

theorem writeHomeAgent_mem {w : Bytes} (hw : w ∈ blank) (i : Poller.HomeAgent) :
    writeHomeAgent w i ∈ renderHomeAgent i :=
  writeTagged_mem hw _ (Language.append_mem_mul (writeTagged_mem hw _ rfl)
    (Language.append_mem_mul (writeTagged_mem hw _ rfl) (writeTagged_mem hw _ rfl)))

theorem writeDevice_mem {w : Bytes} (hw : w ∈ blank) (i : Device) :
    writeDevice w i ∈ renderDevice i := by
  have hfield : ∀ name s, writeTagged w name s ∈ renderTagged name {s} :=
    fun name s => writeTagged_mem hw name rfl
  have htimestamp : decimal i.timestamp ++ w ∈ renderTimestamp i.timestamp :=
    Language.append_mem_mul rfl hw
  exact writeTagged_mem hw _ <| Language.append_mem_mul (hfield _ _) <|
    Language.append_mem_mul (hfield _ _) <| Language.append_mem_mul (hfield _ _) <|
    Language.append_mem_mul (hfield _ _) <|
    Language.append_mem_mul (writeTagged_mem hw _ htimestamp) <|
    Language.append_mem_mul (hfield _ _) (hfield _ _)

theorem writeUpdates_mem (updates : List Bytes) : writeUpdates updates ∈ renderUpdates updates := by
  rcases updates with _ | ⟨update, updates⟩
  · exact Language.nil_mem_one
  · exact Language.append_mem_mul rfl
      (flatMap_mem_prod updates fun i _ => Language.append_mem_mul rfl rfl)

/-- What is written is a rendering. -/
theorem writeGetall_mem {w : Bytes} (hw : w ∈ blank) (gall : Getall) :
    writeGetall w gall ∈ renderGetall gall :=
  writeTagged_mem hw _ <| Language.append_mem_mul (writeTagged_mem hw _ rfl) <|
    Language.append_mem_mul
      (writeTagged_mem hw _ (flatMap_mem_prod _ fun i _ => writeHomeAgent_mem hw i)) <|
    Language.append_mem_mul
      (writeTagged_mem hw _ (flatMap_mem_prod _ fun i _ => writeDevice_mem hw i))
      (writeTagged_mem hw _ (writeUpdates_mem _))

/-! ## The values that can be rendered -/

/-- Characters of 7 bits, no `<` among them, and no white space at the front. -/
structure GoodString (s : Bytes) : Prop where
  ascii : ∀ c ∈ s, c < 128
  plain : 60 ∉ s
  front : ∀ c ∈ s.head?, space c = false

structure GoodHomeAgent (i : Poller.HomeAgent) : Prop where
  hostname : GoodString i.hostname
  description : GoodString i.description
  port : GoodString i.port

structure GoodDevice (i : Device) : Prop where
  owner : GoodString i.owner
  name : GoodString i.name
  port : GoodString i.port
  type : GoodString i.type
  timestamp : -2 ^ 63 ≤ i.timestamp ∧ i.timestamp < 2 ^ 63
  location : GoodString i.location
  description : GoodString i.description

/-- Updates are separated by commas, and there is at least one, which may be empty. -/
structure GoodGetall (gall : Getall) : Prop where
  haname : GoodString gall.haname
  homeagents : ∀ i ∈ gall.homeagents, GoodHomeAgent i
  devices : ∀ i ∈ gall.devices, GoodDevice i
  updates : ∀ i ∈ gall.updates, GoodString i ∧ 44 ∉ i
  updates_ne : gall.updates ≠ []

/-! ## Rules of the grammars -/

/-- What follows is a closing tag. -/
def ClosingFollows (rest : Bytes) : Prop := ∃ t, rest = 60 :: 47 :: t

theorem closingFollows_closeTag (name rest : Bytes) : ClosingFollows (closeTag name ++ rest) :=
  ⟨name ++ [62] ++ rest, rfl⟩

/-- White space is not skipped there. -/
theorem ClosingFollows.skip_eq {rest : Bytes} (h : ClosingFollows rest) :
    skip space rest = rest := by
  obtain ⟨t, rfl⟩ := h
  exact List.dropWhile_cons_of_neg (by decide)

/-- Anywhere. -/
abbrev Anywhere (_ : Bytes) : Prop := True

/-- A rule that is accepted anywhere can follow any other such rule. -/
theorem anywhere_append {L : Language UInt8} :
    ∀ m ∈ L, ∀ rest, Anywhere rest → Anywhere (m ++ rest) :=
  fun _ _ _ _ => True.intro

theorem accepts_tagged {β : Type} {p : PhraseParser UInt8 β} {L : Language UInt8} {a : β}
    (name : Bytes) (hp : Accepts space p L a ClosingFollows) :
    Accepts space (tagged name p) (renderTagged name L) a Anywhere := by
  have hclose : Accepts space (lit space (closeTag name)) ({closeTag name} * blank) () Anywhere :=
    (Accepts.lit (by decide)).mul_blanks anywhere_append
  refine (Accepts.lit (by decide)).bind ?_ anywhere_append
  refine hp.blanks_mul.bind (hclose.map fun _ => a) fun m hm rest _ => ?_
  obtain ⟨_, rfl, w, -, rfl⟩ := Language.mem_mul.mp hm
  rw [List.append_assoc]
  exact closingFollows_closeTag name _

/-- What is accepted anywhere is accepted in front of a closing tag. -/
theorem accepts_record {β : Type} {p : PhraseParser UInt8 β} {L : Language UInt8} {a : β}
    (name : Bytes) (hp : Accepts space p L a Anywhere) :
    Accepts space (tagged name p) (renderTagged name L) a Anywhere :=
  accepts_tagged name (hp.mono fun _ _ => True.intro)

/-- A tagged rule does not take a closing tag. -/
theorem tagged_of_closing {β : Type} {p : PhraseParser UInt8 β} {c : UInt8} {cs rest input : Bytes}
    (hc : c ≠ 47) (hrest : ClosingFollows rest) (hinput : skip space input = skip space rest) :
    tagged (c :: cs) p input = none := by
  have hlit : lit space (openTag (c :: cs)) input = none := by
    rw [lit, hinput, hrest.skip_eq, if_neg]
    intro hprefix
    obtain ⟨t, rfl⟩ := hrest
    rw [openTag, List.cons_append, List.cons_prefix_cons, List.cons_prefix_cons] at hprefix
    exact hc hprefix.2.1
  rw [tagged, bind_run, hlit]
  rfl

theorem consumes_tagged {β : Type} {p : PhraseParser UInt8 β} (name : Bytes) (hp : Consumes p 0) :
    Consumes (tagged name p) 1 :=
  ((Consumes.lit space (openTag name)).bind fun _ => hp.bind fun _ =>
    ((Consumes.lit space (closeTag name)).mono (Nat.zero_le _)).bind fun _ => .pure _).mono
      (by simp [openTag])

theorem accepts_str {s : Bytes} (h : GoodString s) :
    Accepts space str {s} s ClosingFollows := by
  refine (Accepts.lexeme_many (fun c hc => ?_) h.front).mono ?_
  · have hne : c ≠ 60 := ne_of_mem_of_not_mem hc h.plain
    simpa [char, hne] using h.ascii c hc
  · rintro rest ⟨t, rfl⟩
    exact ⟨60, _, rfl, by decide, by decide⟩

/-- A character that ends an update. -/
def EndsUpdate (rest : Bytes) : Prop := ∃ c t, rest = c :: t ∧ (c = 44 ∨ c = 60)

theorem accepts_str2 {s : Bytes} (h : GoodString s) (hcomma : 44 ∉ s) :
    Accepts space str2 {s} s EndsUpdate := by
  refine (Accepts.lexeme_many (fun c hc => ?_) h.front).mono ?_
  · have hne : c ≠ 60 := ne_of_mem_of_not_mem hc h.plain
    have hne' : c ≠ 44 := ne_of_mem_of_not_mem hc hcomma
    simpa [char, hne, hne'] using h.ascii c hc
  · rintro rest ⟨c, t, rfl, rfl | rfl⟩
    · exact ⟨44, t, rfl, by decide, by decide⟩
    · exact ⟨60, t, rfl, by decide, by decide⟩

/-! ## Numbers -/

/-- What follows is no digit. -/
def NoDigitFollows (rest : Bytes) : Prop := ∀ c ∈ rest.head?, isDigit c = false

theorem isDigit_of_mem {n : ℕ} {c : UInt8} (h : c ∈ decimalNat n) : isDigit c = true := by
  obtain ⟨hlow, hhigh⟩ := mem_decimalNat h
  have hle : 48 ≤ c ∧ c ≤ 57 := ⟨UInt8.le_iff_toNat_le.mpr hlow, UInt8.le_iff_toNat_le.mpr hhigh⟩
  simpa [isDigit] using hle

theorem decimalNat_ne_nil (n : ℕ) : decimalNat n ≠ [] := by
  rw [decimalNat]
  split_ifs with hn
  · exact List.cons_ne_nil _ _
  · simpa [Nat.digits_ne_nil_iff_ne_zero] using hn

/-- The digits of a number end where there is no digit. -/
theorem span_decimalNat (n : ℕ) {rest : Bytes} (h : NoDigitFollows rest) :
    (decimalNat n ++ rest).takeWhile isDigit = decimalNat n ∧
      (decimalNat n ++ rest).dropWhile isDigit = rest := by
  have hdigits : ∀ c ∈ decimalNat n, isDigit c = true := fun c hc => isDigit_of_mem hc
  have hrest : rest.takeWhile isDigit = [] ∧ rest.dropWhile isDigit = rest := by
    rcases rest with _ | ⟨c, t⟩
    · exact ⟨rfl, rfl⟩
    · have hc : ¬ isDigit c = true := by
        rw [h c rfl]
        exact Bool.false_ne_true
      exact ⟨List.takeWhile_cons_of_neg hc, List.dropWhile_cons_of_neg hc⟩
  rw [List.takeWhile_append_of_pos hdigits, List.dropWhile_append_of_pos hdigits, hrest.1, hrest.2,
    List.append_nil]
  exact ⟨rfl, rfl⟩

/-- A digit is no sign. -/
theorem sign_decimalNat (n : ℕ) (rest : Bytes) :
    sign (decimalNat n ++ rest) = (false, decimalNat n ++ rest) := by
  obtain ⟨c, cs, hc⟩ := List.exists_cons_of_ne_nil (decimalNat_ne_nil n)
  have hdigit : isDigit c = true := isDigit_of_mem (hc ▸ List.mem_cons_self)
  rw [hc, List.cons_append]
  unfold sign
  split
  · next heq =>
    obtain ⟨rfl, -⟩ := List.cons.inj heq
    exact absurd hdigit (by decide)
  · next heq =>
    obtain ⟨rfl, -⟩ := List.cons.inj heq
    exact absurd hdigit (by decide)
  · rfl

theorem sign_decimal (z : ℤ) (rest : Bytes) :
    sign (decimal z ++ rest) = (decide (z < 0), decimalNat z.natAbs ++ rest) := by
  rw [decimal]
  split_ifs with hneg
  · rw [decide_eq_true hneg]
    rfl
  · rw [decide_eq_false hneg, sign_decimalNat]

theorem skip_decimal (z : ℤ) (rest : Bytes) :
    skip space (decimal z ++ rest) = decimal z ++ rest := by
  rw [decimal]
  split_ifs with hneg
  · exact List.dropWhile_cons_of_neg (by decide)
  · obtain ⟨c, cs, hc⟩ := List.exists_cons_of_ne_nil (decimalNat_ne_nil z.natAbs)
    have hmem : c ∈ decimalNat z.natAbs := hc ▸ List.mem_cons_self
    have hspace : ¬ space c = true := by
      have hlow := (mem_decimalNat hmem).1
      simp only [space, Bool.or_eq_true, Bool.and_eq_true, decide_eq_true_eq,
        UInt8.le_iff_toNat_le]
      rintro (rfl | ⟨-, hhigh⟩)
      · exact absurd hlow (by decide)
      · have hle : c.toNat ≤ 13 := hhigh
        omega
    rw [hc]
    exact List.dropWhile_cons_of_neg hspace

/-- A number within the bounds is read back. -/
theorem accepts_integer {lo hi z : ℤ} (hlo : lo ≤ z) (hhi : z ≤ hi) :
    Accepts space (integer lo hi) {decimal z} z NoDigitFollows where
  run := by
    rintro s rest input rfl hrest hinput
    obtain ⟨htake, hdrop⟩ := span_decimalNat z.natAbs hrest
    have hvalue : (if decide (z < 0) = true then -((valueOfDigits (decimalNat z.natAbs) : ℕ) : ℤ)
        else (valueOfDigits (decimalNat z.natAbs) : ℕ)) = z := by
      rw [valueOfDigits_decimalNat]
      simp only [decide_eq_true_eq]
      split_ifs with hneg
      · omega
      · omega
    refine ⟨rest, ?_, rfl⟩
    rw [integer, lexeme, hinput, skip_decimal]
    dsimp only
    rw [sign_decimal]
    dsimp only
    rw [htake, hdrop, hvalue, if_neg]
    rintro (hnil | hlow | hhigh)
    · exact decimalNat_ne_nil _ hnil
    · omega
    · omega

theorem consumes_integer (lo hi : ℤ) : Consumes (integer lo hi) 0 := by
  refine Consumes.lexeme space ⟨fun {s s' a} hrun => ?_⟩
  have hsign : (sign s).2.length ≤ s.length := by
    unfold sign
    split
    · exact Nat.le_succ _
    · exact Nat.le_succ _
    · exact le_rfl
  have hrest : ((sign s).2.dropWhile isDigit).length ≤ s.length :=
    (List.dropWhile_sublist _).length_le.trans hsign
  dsimp only at hrun
  split_ifs at hrun
  · cases hrun
    exact hrest
  · cases hrun
    exact hrest

theorem isDigit_of_space : ∀ c : UInt8, space c = true → isDigit c = false := by decide +kernel

theorem accepts_timestamp {z : ℤ} (h : -2 ^ 63 ≤ z ∧ z < 2 ^ 63) :
    Accepts space long (renderTimestamp z) z ClosingFollows := by
  refine (accepts_integer h.1 (by omega)).mul_blanks fun w hw rest hrest => ?_
  rcases w with _ | ⟨c, w⟩
  · obtain ⟨t, rfl⟩ := hrest
    intro c hc
    obtain rfl := Option.mem_some_iff.mp hc
    decide
  · intro d hd
    obtain rfl := Option.mem_some_iff.mp hd
    exact isDigit_of_space _ (hw _ List.mem_cons_self)

/-! ## Records -/

theorem accepts_field {name s : Bytes} (h : GoodString s) :
    Accepts space (tagged name str) (renderTagged name {s}) s Anywhere :=
  accepts_tagged name (accepts_str h)

theorem accepts_homeagent {i : Poller.HomeAgent} (h : GoodHomeAgent i) :
    Accepts space homeagent (renderHomeAgent i) i Anywhere :=
  accepts_record _ <| (accepts_field h.hostname).bind ((accepts_field h.description).bind
    ((accepts_field h.port).map fun port => { i with port := port }) anywhere_append)
    anywhere_append

theorem accepts_device {i : Device} (h : GoodDevice i) :
    Accepts space device (renderDevice i) i Anywhere :=
  accepts_record _ <| (accepts_field h.owner).bind ((accepts_field h.name).bind
    ((accepts_field h.port).bind ((accepts_field h.type).bind
      ((accepts_tagged _ (accepts_timestamp h.timestamp)).bind ((accepts_field h.location).bind
        ((accepts_field h.description).map fun description =>
          { i with description := description }) anywhere_append) anywhere_append)
        anywhere_append) anywhere_append) anywhere_append) anywhere_append

theorem consumes_str : Consumes str 0 := Consumes.lexeme space (Consumes.many _)

theorem consumes_field (name : Bytes) : Consumes (tagged name str) 0 :=
  (consumes_tagged name consumes_str).mono (Nat.zero_le _)

theorem consumes_homeagent : Consumes homeagent 1 :=
  consumes_tagged _ <| (consumes_field _).bind fun _ => (consumes_field _).bind fun _ =>
    (consumes_field _).bind fun _ => .pure _

theorem consumes_device : Consumes device 1 :=
  consumes_tagged _ <| (consumes_field _).bind fun _ => (consumes_field _).bind fun _ =>
    (consumes_field _).bind fun _ => (consumes_field _).bind fun _ =>
      ((consumes_tagged _ (consumes_integer _ _)).mono (Nat.zero_le _)).bind fun _ =>
        (consumes_field _).bind fun _ => (consumes_field _).bind fun _ => .pure _

/-! ## Lists -/

/-- Records up to the closing tag of their list. -/
theorem accepts_records {β : Type} {p : PhraseParser UInt8 β} {name : Bytes} {c : UInt8}
    {cs : Bytes} (hname : name = c :: cs) (hc : c ≠ 47) {render : β → Language UInt8}
    {records : List β} (hconsumes : Consumes (tagged name p) 1)
    (h : ∀ i ∈ records, Accepts space (tagged name p) (render i) i Anywhere) :
    Accepts space (kleene (tagged name p)) (records.map render).prod records ClosingFollows := by
  subst hname
  exact .kleene hconsumes h (fun _ _ _ _ _ => True.intro) (fun _ _ => True.intro)
    fun hrest hinput => tagged_of_closing hc hrest hinput

theorem accepts_updates {updates : List Bytes} (hne : updates ≠ [])
    (h : ∀ i ∈ updates, GoodString i ∧ 44 ∉ i) :
    Accepts space (list str2 (lit space (text ","))) (renderUpdates updates) updates
      ClosingFollows := by
  have hcomma : text "," = [44] := by decide +kernel
  obtain ⟨update, updates, rfl⟩ := List.exists_cons_of_ne_nil hne
  rw [renderUpdates, hcomma]
  refine .list (Consumes.lit space [44]) (Consumes.lexeme space (Consumes.many _))
    (Accepts.lit (by decide)) (fun i hi => accepts_str2 (h i hi).1 (h i hi).2) ?_ ?_ ?_
  · rintro m rfl rest
    exact ⟨44, rest, rfl, Or.inl rfl⟩
  · rintro rest ⟨t, rfl⟩
    exact ⟨60, _, rfl, Or.inr rfl⟩
  · intro rest input hrest hinput
    rw [lit, hinput, hrest.skip_eq, if_neg]
    intro hprefix
    obtain ⟨t, rfl⟩ := hrest
    exact absurd (List.cons_prefix_cons.mp hprefix).1 (by decide)

/-! ## The answer -/

theorem accepts_neighbours {homeagents : List Poller.HomeAgent}
    (h : ∀ i ∈ homeagents, GoodHomeAgent i) :
    Accepts space neighbours
      (renderTagged (text "neighbours") (homeagents.map renderHomeAgent).prod) homeagents Anywhere :=
  accepts_tagged _ <| accepts_records
    (by decide +kernel : text "home agent" = 104 :: text "ome agent") (by decide)
    consumes_homeagent fun i hi => accepts_homeagent (h i hi)

theorem accepts_devices {is : List Device} (h : ∀ i ∈ is, GoodDevice i) :
    Accepts space devices (renderTagged (text "devices") (is.map renderDevice).prod) is Anywhere :=
  accepts_tagged _ <| accepts_records (by decide +kernel : text "device" = 100 :: text "evice")
    (by decide) consumes_device fun i hi => accepts_device (h i hi)

theorem accepts_content {updates : List Bytes} (hne : updates ≠ [])
    (h : ∀ i ∈ updates, GoodString i ∧ 44 ∉ i) :
    Accepts space content (renderTagged (text "content updates") (renderUpdates updates)) updates
      Anywhere :=
  accepts_tagged _ (accepts_updates hne h)

theorem accepts_getall {gall : Getall} (h : GoodGetall gall) :
    Accepts space getallParser (renderGetall gall) gall Anywhere :=
  accepts_record _ <| (accepts_field h.haname).bind ((accepts_neighbours h.homeagents).bind
    ((accepts_devices h.devices).bind ((accepts_content h.updates_ne h.updates).map fun updates =>
      { gall with updates := updates }) anywhere_append) anywhere_append) anywhere_append

/-- **Round trip.**  Every rendering of a value is accepted as a whole, and yields the value. -/
theorem getall_round_trip {gall : Getall} (h : GoodGetall gall) {s : Bytes}
    (hs : s ∈ renderGetall gall) : phraseParse space getallParser s = some (gall, []) :=
  (accepts_getall h).phraseParse hs True.intro

/-- An answer with a home agent, a device, an update without a name, and line breaks. -/
def sampleGetall : Getall where
  haname := text "mg"
  homeagents := [⟨text "ct", [], text "53"⟩]
  devices := [⟨text "a", text "b c ", [], text "p>hone", -7, [], []⟩]
  updates := [text "b c ", []]

instance (s : Bytes) : Decidable (GoodString s) :=
  decidable_of_iff ((∀ c ∈ s, c < 128) ∧ 60 ∉ s ∧ ∀ c ∈ s.head?, space c = false)
    ⟨fun h => ⟨h.1, h.2.1, h.2.2⟩, fun h => ⟨h.ascii, h.plain, h.front⟩⟩

theorem sampleGetall_good : GoodGetall sampleGetall where
  haname := by decide +kernel
  homeagents := List.forall_mem_singleton.mpr
    ⟨by decide +kernel, by decide +kernel, by decide +kernel⟩
  devices := List.forall_mem_singleton.mpr
    ⟨by decide +kernel, by decide +kernel, by decide +kernel, by decide +kernel, by decide +kernel,
      by decide +kernel, by decide +kernel⟩
  updates := by decide +kernel
  updates_ne := List.cons_ne_nil _ _

theorem sampleGetall_round_trip :
    phraseParse space getallParser (writeGetall (text "\n\t") sampleGetall) =
      some (sampleGetall, []) := by
  have hblank : ∀ c ∈ text "\n\t", space c = true := by decide +kernel
  exact getall_round_trip sampleGetall_good (writeGetall_mem hblank sampleGetall)

end CrawlerParser
