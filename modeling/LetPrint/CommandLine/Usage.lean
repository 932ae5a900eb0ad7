/-! What the command says about itself. -/
namespace LetPrint.CommandLine

/-- The usage line. -/
def usage : String :=
  "usage: letlang [-h] [-b \x7btree,vm\x7d] [--tokens] [--ast] [--bytecode] [-v] FILE\n"

/-- The answer to a request for help. -/
def help : String :=
  usage ++ "\nrun a let/print program\n\n" ++
  "positional arguments:\n" ++
  "  FILE                  source file\n\n" ++
  "options:\n" ++
  "  -h, --help            show this help message and exit\n" ++
  "  -b \x7btree,vm\x7d, --backend \x7btree,vm\x7d\n" ++
  "                        execution backend (default: vm)\n" ++
  "  --tokens              dump tokens before running\n" ++
  "  --ast                 dump the parsed AST before running\n" ++
  "  --bytecode            dump the instruction listing before running\n" ++
  "  -v, --verbose         verbose debugging output\n"

/-- What is written when the command cannot be carried out as given. -/
def complaint (text : String) : String :=
  usage ++ "letlang: error: " ++ text ++ "\n"

end LetPrint.CommandLine
