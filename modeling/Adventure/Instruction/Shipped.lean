import Adventure.Instruction.Set

namespace Adventure.InstructionSet

/-- The opcodes that all games share, unless their own layers say otherwise. -/
def simonLayer : List OpcodeDefinition := [
  ⟨0x00, some "NOT", []⟩,
  ⟨0x01, some "AT", [.item]⟩,
  ⟨0x02, some "NOTAT", [.item]⟩,
  ⟨0x03, some "PRESENT", [.item]⟩,
  ⟨0x04, some "ABSENT", [.item]⟩,
  ⟨0x05, some "CARRIED", [.item]⟩,
  ⟨0x06, some "NOTCARR", [.item]⟩,
  ⟨0x07, some "ISAT", [.item, .item]⟩,
  ⟨0x08, some "ISNOTAT", [.item, .item]⟩,
  ⟨0x09, some "ISBY", [.item, .item]⟩,
  ⟨0x0a, some "ISNOTBY", [.item, .item]⟩,
  ⟨0x0b, some "ZERO", [.byte]⟩,
  ⟨0x0c, some "NOTZERO", [.byte]⟩,
  ⟨0x0d, some "EQ", [.byte, .number]⟩,
  ⟨0x0e, some "NOTEQ", [.byte, .number]⟩,
  ⟨0x0f, some "GT", [.byte, .number]⟩,
  ⟨0x10, some "LT", [.byte, .number]⟩,
  ⟨0x11, some "EQF", [.byte, .byte]⟩,
  ⟨0x12, some "NOTEQF", [.byte, .byte]⟩,
  ⟨0x13, some "LTF", [.byte, .byte]⟩,
  ⟨0x14, some "GTF", [.byte, .byte]⟩,
  ⟨0x15, some "ISIN", [.item, .item]⟩,
  ⟨0x16, some "ISNOTIN", [.item, .item]⟩,
  ⟨0x17, some "CHANCE", [.number]⟩,
  ⟨0x18, some "ISPLAYER", [.item]⟩,
  ⟨0x19, some "ISROOM", [.item]⟩,
  ⟨0x1a, some "ISOBJECT", [.item]⟩,
  ⟨0x1b, some "STATE", [.item, .number]⟩,
  ⟨0x1c, some "OFLAG", [.item, .byte]⟩,
  ⟨0x1d, some "CANPUT", [.item, .item]⟩,
  ⟨0x1e, some "CREATE", [.item]⟩,
  ⟨0x1f, some "DESTROY", [.item]⟩,
  ⟨0x20, some "SWAP", [.item, .item]⟩,
  ⟨0x21, some "PLACE", [.item, .item]⟩,
  ⟨0x22, some "COPYOF", [.item, .byte, .byte]⟩,
  ⟨0x23, some "COPYFO", [.byte, .item, .byte]⟩,
  ⟨0x24, some "COPYFF", [.byte, .byte]⟩,
  ⟨0x25, some "WHATO", [.byte]⟩,
  ⟨0x26, some "GETO", [.byte, .item]⟩,
  ⟨0x27, some "WEIGH", [.item, .byte]⟩,
  ⟨0x28, some "SET", [.byte]⟩,
  ⟨0x29, some "CLEAR", [.byte]⟩,
  ⟨0x2a, some "LET", [.byte, .number]⟩,
  ⟨0x2b, some "ADD", [.byte, .number]⟩,
  ⟨0x2c, some "SUB", [.byte, .number]⟩,
  ⟨0x2d, some "ADDF", [.byte, .byte]⟩,
  ⟨0x2e, some "SUBF", [.byte, .byte]⟩,
  ⟨0x2f, some "MUL", [.byte, .number]⟩,
  ⟨0x30, some "DIV", [.byte, .number]⟩,
  ⟨0x31, some "MULF", [.byte, .byte]⟩,
  ⟨0x32, some "DIVF", [.byte, .byte]⟩,
  ⟨0x33, some "MOD", [.byte, .number]⟩,
  ⟨0x34, some "MODF", [.byte, .byte]⟩,
  ⟨0x35, some "RANDOM", [.byte, .number]⟩,
  ⟨0x36, some "MOVE", [.byte]⟩,
  ⟨0x37, some "GOTO", [.item]⟩,
  ⟨0x38, some "OSET", [.item, .byte]⟩,
  ⟨0x39, some "OCLEAR", [.item, .byte]⟩,
  ⟨0x3a, some "PUTBY", [.item, .item]⟩,
  ⟨0x3b, some "INC", [.item]⟩,
  ⟨0x3c, some "DEC", [.item]⟩,
  ⟨0x3d, some "SETSTATE", [.item, .number]⟩,
  ⟨0x3e, some "PRINT", [.byte]⟩,
  ⟨0x3f, some "MESSAGE", [.text]⟩,
  ⟨0x40, some "MSG", [.text]⟩,
  ⟨0x41, some "ADD_TEXT_BOX", [.number, .number, .number, .number, .number, .byte]⟩,
  ⟨0x42, some "SET_SHORT_TEXT", [.byte, .text]⟩,
  ⟨0x43, some "SET_LONG_TEXT", [.byte, .text]⟩,
  ⟨0x44, some "END", [.text]⟩,
  ⟨0x45, some "DONE", []⟩,
  ⟨0x46, some "SHOW_STRING_AR3", [.byte]⟩,
  ⟨0x47, some "PROCESS", [.number]⟩,
  ⟨0x48, some "DOCLASS", [.item, .byte, .number]⟩,
  ⟨0x49, some "POBJ", [.item]⟩,
  ⟨0x4a, some "PNAME", [.item]⟩,
  ⟨0x4b, some "PCNAME", [.item]⟩,
  ⟨0x4c, some "WHEN", [.number, .number]⟩,
  ⟨0x4d, some "IF1", []⟩,
  ⟨0x4e, some "IF2", []⟩,
  ⟨0x4f, some "ISCALLED", [.item, .text]⟩,
  ⟨0x50, some "IS", [.item, .item]⟩,
  ⟨0x51, some "EXITS", [.item]⟩,
  ⟨0x52, some "DEBUG", [.byte]⟩,
  ⟨0x53, some "RESCAN", []⟩,
  ⟨0x54, some "CANGOBY", [.item, .byte]⟩,
  ⟨0x55, some "WHERETO", [.item, .byte, .byte]⟩,
  ⟨0x56, some "DOOREXIT", [.item, .item, .byte]⟩,
  ⟨0x57, some "COMMENT", [.text]⟩,
  ⟨0x58, some "STOP_ANIMATION", []⟩,
  ⟨0x59, some "RESTART_ANIMATION", []⟩,
  ⟨0x5a, some "GETPARENT", [.item, .byte]⟩,
  ⟨0x5b, some "GETNEXT", [.item, .byte]⟩,
  ⟨0x5c, some "GETCHILDREN", [.item, .byte]⟩,
  ⟨0x5d, some "PEXIT", [.byte]⟩,
  ⟨0x5e, some "FINDMASTER", [.byte, .byte]⟩,
  ⟨0x5f, some "NEXTMASTER", [.item, .byte, .byte]⟩,
  ⟨0x60, some "PICTURE", [.number, .byte]⟩,
  ⟨0x61, some "LOAD_ZONE", [.number]⟩,
  ⟨0x62, some "ANIMATE", [.number, .byte, .number, .number, .number]⟩,
  ⟨0x63, some "STOP_ANIMATE", [.number]⟩,
  ⟨0x64, some "KILL_ANIMATE", []⟩,
  ⟨0x65, some "DEFINE_WINDOW", [.byte, .number, .number, .number, .number, .number, .number]⟩,
  ⟨0x66, some "CHANGE_WINDOW", [.byte]⟩,
  ⟨0x67, some "CLS", []⟩,
  ⟨0x68, some "CLOSE_WINDOW", [.byte]⟩,
  ⟨0x69, some "MENU", [.byte]⟩,
  ⟨0x6a, some "TEXT_MENU", [.byte, .byte]⟩,
  ⟨0x6b, some "ADD_BOX", [.number, .number, .number, .number, .number, .item, .number]⟩,
  ⟨0x6c, some "DEL_BOX", [.number]⟩,
  ⟨0x6d, some "ENABLE_BOX", [.number]⟩,
  ⟨0x6e, some "DISABLE_BOX", [.number]⟩,
  ⟨0x6f, some "MOVE_BOX", [.number, .number, .number]⟩,
  ⟨0x70, some "DRAW_ICON", [.number, .byte, .number, .number]⟩,
  ⟨0x71, some "DRAW_ITEM", [.item, .byte, .number, .number]⟩,
  ⟨0x72, some "DO_ICONS", [.item, .byte]⟩,
  ⟨0x73, some "ISCLASS", [.item, .byte]⟩,
  ⟨0x74, some "SETCLASS", [.item, .byte]⟩,
  ⟨0x75, some "UNSETCLASS", [.item, .byte]⟩,
  ⟨0x76, some "WAIT", [.number]⟩,
  ⟨0x77, some "WAIT_SYNC", [.number]⟩,
  ⟨0x78, some "SYNC", [.number]⟩,
  ⟨0x79, some "DEF_OBJ", [.byte, .item]⟩,
  ⟨0x7a, some "ENABLE_INPUT", []⟩,
  ⟨0x7b, some "SET_TIME", []⟩,
  ⟨0x7c, some "IF_TIME", [.number]⟩,
  ⟨0x7d, some "IS_SIBLING_WITH_A", [.item]⟩,
  ⟨0x7e, some "DO_CLASS_ICONS", [.item, .byte, .byte]⟩,
  ⟨0x7f, some "PLAY_TUNE", [.number, .number]⟩,
  ⟨0x80, some "WAITENDTUNE", [.number]⟩,
  ⟨0x81, some "IFENDTUNE", [.number]⟩,
  ⟨0x82, some "SET_ADJ_NOUN", [.byte, .adjective, .noun]⟩,
  ⟨0x83, some "ZONEDISK", [.byte, .byte]⟩,
  ⟨0x84, some "SAVE_USER_GAME", []⟩,
  ⟨0x85, some "LOAD_USER_GAME", []⟩,
  ⟨0x86, some "STOP_TUNE", []⟩,
  ⟨0x87, some "PAUSE", []⟩,
  ⟨0x88, some "COPY_SF", [.item, .byte]⟩,
  ⟨0x89, some "RESTORE_ICONS", [.byte]⟩,
  ⟨0x8a, some "FREEZE_ZONES", []⟩,
  ⟨0x8b, some "SET_PARENT_SPECIAL", [.item, .item]⟩,
  ⟨0x8c, some "CLEAR_TIMERS", []⟩,
  ⟨0x8d, some "SET_M1_OR_M3", [.byte, .item]⟩,
  ⟨0x8e, some "IS_BOX", [.number]⟩,
  ⟨0x8f, some "START_ITEM_SUB", [.item]⟩,
  ⟨0x90, none, [.item, .byte]⟩,
  ⟨0x91, none, [.item, .byte]⟩,
  ⟨0x92, none, [.item, .byte]⟩,
  ⟨0x93, none, [.item, .byte]⟩,
  ⟨0x94, none, [.item, .byte]⟩,
  ⟨0x95, none, [.item, .byte]⟩,
  ⟨0x96, none, [.item, .byte]⟩,
  ⟨0x97, some "STORE_ITEM", [.byte, .item]⟩,
  ⟨0x98, some "GET_ITEM", [.byte, .byte]⟩,
  ⟨0x99, some "SET_BIT", [.byte]⟩,
  ⟨0x9a, some "CLEAR_BIT", [.byte]⟩,
  ⟨0x9b, some "IS_BIT_CLEAR", [.byte]⟩,
  ⟨0x9c, some "IS_BIT_SET", [.byte]⟩,
  ⟨0x9d, some "GET_ITEM_PROP", [.item, .byte, .byte]⟩,
  ⟨0x9e, some "SET_ITEM_PROP", [.item, .byte, .number]⟩,
  ⟨0x9f, none, [.item, .byte]⟩,
  ⟨0xa0, some "SET_INK", [.byte]⟩,
  ⟨0xa1, some "SETUP_TEXT", [.byte, .number, .byte, .number]⟩,
  ⟨0xa2, some "PRINT_STR", [.byte, .byte, .text]⟩,
  ⟨0xa3, some "PLAY_EFFECT", [.number]⟩,
  ⟨0xa4, some "getDollar2", []⟩,
  ⟨0xa5, some "IS_ADJ_NOUN", [.item, .adjective, .noun]⟩,
  ⟨0xa6, some "SET_BIT2", [.byte]⟩,
  ⟨0xa7, some "CLEAR_BIT2", [.byte]⟩,
  ⟨0xa8, some "IS_BIT2_CLEAR", [.byte]⟩,
  ⟨0xa9, some "IS_BIT2_SET", [.byte]⟩,
  ⟨0xaa, none, [.text]⟩,
  ⟨0xab, none, [.text]⟩,
  ⟨0xac, none, [.byte]⟩,
  ⟨0xad, none, []⟩,
  ⟨0xae, none, [.item]⟩,
  ⟨0xaf, some "LOCK_ZONES", []⟩,
  ⟨0xb0, some "UNLOCK_ZONES", []⟩,
  ⟨0xb1, some "SCREEN_TEXT_POBJ", [.byte, .byte, .item]⟩,
  ⟨0xb2, some "GETPATHPOSN", [.number, .number, .byte, .byte]⟩,
  ⟨0xb3, some "SCREEN_TEXT_LONG_TEXT", [.byte, .byte, .byte]⟩,
  ⟨0xb4, some "MOUSE_ON", []⟩,
  ⟨0xb5, some "MOUSE_OFF", []⟩,
  ⟨0xb6, some "LOAD_BEARD", []⟩,
  ⟨0xb7, some "UNLOAD_BEARD", []⟩,
  ⟨0xb8, some "UNLOAD_ZONE", [.number]⟩,
  ⟨0xb9, some "LOAD_SOUND_FILES", [.number]⟩,
  ⟨0xba, some "UNFREEZE_ZONES", []⟩,
  ⟨0xbb, some "FADE_TO_BLACK", []⟩]

/-- Texts that are spoken as well. -/
def talkieLayer : List OpcodeDefinition := [
  ⟨0x43, some "SET_LONG_TEXT", [.byte, .text, .voice]⟩,
  ⟨0xa2, some "PRINT_STR", [.byte, .byte, .text, .voice]⟩]

/-- The opcodes of Waxworks. -/
def waxworksLayer : List OpcodeDefinition := [
  ⟨0x58, none, [.text]⟩,
  ⟨0x59, some "LOAD_GAME", [.text]⟩,
  ⟨0x90, some "SET_DOOR_OPEN", [.item, .byte]⟩,
  ⟨0x91, some "SET_DOOR_CLOSED", [.item, .byte]⟩,
  ⟨0x92, some "SET_DOOR_LOCKED", [.item, .byte]⟩,
  ⟨0x93, some "SET_DOOR_UNLOCKED", [.item, .byte]⟩,
  ⟨0x94, some "IF_DOOR_OPEN", [.item, .byte]⟩,
  ⟨0x95, some "IF_DOOR_CLOSED", [.item, .byte]⟩,
  ⟨0x96, some "IF_DOOR_LOCKED", [.item, .byte]⟩,
  ⟨0xa1, none, []⟩,
  ⟨0xa2, none, [.text, .byte]⟩,
  ⟨0xa3, none, [.text, .byte]⟩,
  ⟨0xa4, none, [.item]⟩,
  ⟨0xa5, none, [.number]⟩,
  ⟨0xa6, none, [.byte]⟩,
  ⟨0xa7, none, [.item, .number, .byte]⟩,
  ⟨0xa8, none, [.item, .number, .byte]⟩,
  ⟨0xa9, none, [.item, .number, .byte]⟩,
  ⟨0xaa, none, [.item, .number, .byte]⟩,
  ⟨0xab, none, [.item, .number, .byte]⟩,
  ⟨0xac, none, [.item, .number, .byte]⟩,
  ⟨0xad, none, [.item, .number, .byte]⟩,
  ⟨0xae, none, [.number]⟩,
  ⟨0xaf, some "getDollar2", []⟩,
  ⟨0xb0, none, [.item, .number, .byte, .byte]⟩,
  ⟨0xb1, none, [.byte]⟩,
  ⟨0xb2, none, [.byte]⟩,
  ⟨0xb3, some "IS_ADJ_NOUN", [.item, .adjective, .noun]⟩,
  ⟨0xb4, some "SET_BIT2", [.byte]⟩,
  ⟨0xb5, some "CLEAR_BIT2", [.byte]⟩,
  ⟨0xb6, some "IS_BIT2_CLEAR", [.byte]⟩,
  ⟨0xb7, some "IS_BIT2_SET", [.byte]⟩,
  ⟨0xb8, some "BOX_MESSAGE", [.text]⟩,
  ⟨0xb9, some "BOX_MSG", [.text]⟩,
  ⟨0xba, some "BOX_LONG_TEXT", [.byte]⟩,
  ⟨0xbb, some "PRINT_BOX", []⟩,
  ⟨0xbc, some "BOX_POBJ", [.item]⟩,
  ⟨0xbd, some "LOCK_ZONES", []⟩,
  ⟨0xbe, some "UNLOCK_ZONES", []⟩]

/-- The opcodes of Simon the Sorcerer 2. -/
def simon2Layer : List OpcodeDefinition := [
  ⟨0x62, some "ANIMATE", [.number, .number, .byte, .number, .number, .number]⟩,
  ⟨0x63, some "STOP_ANIMATE", [.number, .number]⟩,
  ⟨0x7f, some "PLAY_TUNE", [.number, .number, .byte]⟩,
  ⟨0xbc, some "STRING2_IS", [.byte, .text]⟩,
  ⟨0xbd, some "CLEAR_MARKS", []⟩,
  ⟨0xbe, some "WAIT_FOR_MARK", [.byte]⟩]

/-- The opcodes of The Feeble Files. -/
def feebleLayer : List OpcodeDefinition := [
  ⟨0x7a, some "ORACLE_TEXT_DOWN", []⟩,
  ⟨0x7b, some "ORACLE_TEXT_UP", []⟩,
  ⟨0x83, some "SET_TIME", []⟩,
  ⟨0x86, some "LIST_SAVED_GAMES", []⟩,
  ⟨0x87, some "SWITCH_CD", []⟩,
  ⟨0xa1, some "SETUP_TEXT", [.byte, .number, .number, .number]⟩,
  ⟨0xab, some "HYPERLINK_ON", [.number]⟩,
  ⟨0xac, some "HYPERLINK_OFF", []⟩,
  ⟨0xad, some "CHECK_PATHS", []⟩,
  ⟨0xb6, some "LOAD_VIDEO", [.text]⟩,
  ⟨0xb7, some "PLAY_VIDEO", []⟩,
  ⟨0xbb, some "CENTER_SCROLL", []⟩,
  ⟨0xbf, some "RESET_PV_COUNT", []⟩,
  ⟨0xc0, some "SET_PATH_VALUES", [.byte, .byte, .byte, .byte]⟩,
  ⟨0xc1, some "STOP_CLOCK", []⟩,
  ⟨0xc2, some "RESTART_CLOCK", []⟩,
  ⟨0xc3, some "SET_COLOR", [.byte, .byte, .byte, .byte]⟩,
  ⟨0xc4, some "B3_SET", [.byte]⟩,
  ⟨0xc5, some "B3_CLEAR", [.byte]⟩,
  ⟨0xc6, some "B3_ZERO", [.byte]⟩,
  ⟨0xc7, some "B3_NOT_ZERO", [.byte]⟩]

def simon : InstructionSet := ofLayers "simon" [simonLayer]

def simonTalkie : InstructionSet := ofLayers "simon-talkie" [simonLayer, talkieLayer]

def waxworks : InstructionSet := ofLayers "waxworks" [simonLayer, waxworksLayer]

def simon2 : InstructionSet := ofLayers "simon2" [simonLayer, simon2Layer]

def simon2Talkie : InstructionSet :=
  ofLayers "simon2-talkie" [simonLayer, simon2Layer, talkieLayer]

def feeble : InstructionSet :=
  ofLayers "feeble" [simonLayer, simon2Layer, talkieLayer, feebleLayer]

/-- All sets that come with a game. -/
def shipped : List InstructionSet := [simon, simonTalkie, waxworks, simon2, simon2Talkie, feeble]

end Adventure.InstructionSet
