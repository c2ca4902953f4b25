import BantamSyntax.CommandLine.Arguments

/-!
# Path arguments

Command lines of paths that do not begin with a minus sign, with `--source` before or behind them
where the tool knows it. They are received as a request for these paths.
-/
namespace BantamSyntax

variable {t : Tool} {paths front back : List String} {r : Reception} {args : List Argument}

end BantamSyntax
